import CcspCommon.Shared.Run
import CcspCommon.NamespaceMgr.Ownership
import Mathlib

set_option autoImplicit false

namespace CcspCommon.NamespaceMgr.Manager

open CcspCommon.Shared CcspCommon.AnscPlatform

variable {w : Nat}

section Components

structure Sound (mgr : Manager w) : Prop where
  addressed : mgr.Addressed
  short : ∀ comp ∈ mgr.componentQueue, comp.pCompName.length < 256

theorem create_sound : (create : Manager w).Sound where
  addressed := ⟨by simp [create], by simp [create]⟩
  short := by simp [create]

theorem create_short (handle : Handle) (pCompName pDbusPath pPrefix : Option Text) :
    (NamespaceComp.create handle pCompName pDbusPath pPrefix).pCompName.length < 256 := by
  cases pCompName with
  | none => exact Nat.zero_lt_succ _
  | some name =>
    simp only [NamespaceComp.create, strcpyNoClobber]
    split
    next fits => exact fits
    next => exact Nat.zero_lt_succ _

theorem mem_putComponent {mgr : Manager w} {changed other : NamespaceComp}
    (member : other ∈ (mgr.putComponent changed).componentQueue) :
    other = changed ∨ other ∈ mgr.componentQueue := by
  obtain ⟨before, present, rfl⟩ := List.mem_map.mp member
  split
  · exact .inl rfl
  · exact .inr present

theorem enlistComponent_short {mgr : Manager w} (sound : mgr.Sound) {pCompName pDbusPath pPrefix : Option Text}
    {enlisted : Manager w} {comp : NamespaceComp}
    (run : mgr.enlistComponent pCompName pDbusPath pPrefix = (enlisted, comp)) :
    ∀ other ∈ enlisted.componentQueue, other.pCompName.length < 256 := by
  unfold enlistComponent at run
  split at run
  next =>
    obtain ⟨rfl, -⟩ := Prod.mk.inj run
    exact sound.short
  next =>
    obtain ⟨rfl, -⟩ := Prod.mk.inj run
    intro other member
    rcases List.mem_append.mp member with present | created
    · exact sound.short other present
    · rw [List.mem_singleton.mp created]
      exact create_short _ _ _ _

theorem addNamespaces_sound {mgr : Manager w} (sound : mgr.Sound) {pCompName pDbusPath pPrefix : Option Text}
    {settled : List NameSpaceType} {status : Status} {after : Manager w}
    (run : mgr.addNamespaces pCompName pDbusPath pPrefix (settled.map some) = some (status, after)) :
    after.Sound := by
  refine ⟨(mgr.addNamespaces_spec sound.addressed _ _ _ settled run).1, ?_⟩
  rcases enlist : mgr.enlistComponent pCompName pDbusPath pPrefix with ⟨enlisted, comp⟩
  have member := (mgr.enlistComponent_spec sound.addressed _ _ _ enlist).2.1
  have short := enlistComponent_short sound enlist
  simp only [addNamespaces, enlist, Option.map_eq_some_iff, Prod.mk.injEq] at run
  obtain ⟨table, -, -, rfl⟩ := run
  intro other present
  rcases mem_putComponent present with rfl | kept
  · exact short comp member
  · exact short other kept

theorem step_sound {mgr after : Manager w} (sound : mgr.Sound) (call : Call) (run : mgr.step call = some after) :
    after.Sound := by
  cases call with
  | registerNamespaces pCompName pDbusPath pPrefix items =>
    obtain ⟨⟨status, result⟩, made, rfl⟩ := Option.map_eq_some_iff.mp run
    unfold registerNamespaces at made
    split at made
    · cases made
    · simp only [Option.some.injEq, Prod.mk.injEq] at made
      exact made.2 ▸ sound
    next pass =>
      obtain ⟨settled, rfl, -⟩ := mgr.validateNamespaces_pass pCompName items pass
      exact addNamespaces_sound sound made
  | buildNamespaces pCompName pDbusPath pPrefix items =>
    obtain ⟨⟨status, result⟩, made, rfl⟩ := Option.map_eq_some_iff.mp run
    simp only [buildNamespaces, Option.bind_eq_some_iff] at made
    obtain ⟨copy, filtered, made⟩ := made
    obtain ⟨settled, rfl, -, -⟩ := unregistered_spec _ items copy filtered
    refine addNamespaces_sound ?_ made
    exact ⟨⟨sound.addressed.distinct, sound.addressed.fresh⟩, sound.short⟩
  | unregisterNamespace pCompName pNamespace =>
    obtain ⟨⟨status, result⟩, made, rfl⟩ := Option.map_eq_some_iff.mp run
    rcases mgr.unregisterNamespace_cases pCompName pNamespace made with
      rfl | ⟨comp, table, atom, queue, deletes, popped, rfl⟩
    · exact sound
    have member := mgr.lookforComponent_mem deletes.known
    have moved := mgr.putComponent_addressed sound.addressed { comp with paramspaceQueue := queue }
      (sound.addressed.fresh comp member)
    refine ⟨⟨moved.distinct, moved.fresh⟩, fun other present => ?_⟩
    rcases mem_putComponent present with rfl | kept
    · exact sound.short comp member
    · exact sound.short other kept
  | unregisterComponent pCompName =>
    obtain ⟨⟨status, result⟩, made, rfl⟩ := Option.map_eq_some_iff.mp run
    unfold unregisterComponent at made
    split at made
    · simp only [Option.some.injEq, Prod.mk.injEq] at made
      exact made.2 ▸ sound
    next comp known =>
      simp only [Option.map_eq_some_iff, Prod.mk.injEq] at made
      obtain ⟨table, -, -, rfl⟩ := made
      have within : ∀ other ∈ mgr.componentQueue.eraseP fun other => other.handle = comp.handle,
          other ∈ mgr.componentQueue := fun other member => List.mem_of_mem_eraseP member
      refine ⟨⟨?_, fun other member => sound.addressed.fresh other (within other member)⟩,
        fun other member => sound.short other (within other member)⟩
      exact sound.addressed.distinct.sublist (List.Sublist.map _ List.eraseP_sublist)
  | cleanAll =>
    obtain rfl := Option.some.inj run
    exact ⟨⟨by simp [cleanAll], by simp [cleanAll]⟩, by simp [cleanAll]⟩

theorem reachable_sound {mgr : Manager w} (reached : Reachable step (fun _ _ => True) create mgr) : mgr.Sound :=
  reached.invariant create_sound fun _ _ call sound _ run => step_sound sound call run

end Components

section Owners

variable {mgr after : Manager w} {pCompName name : Text} {comp changed : NamespaceComp}

def ownerOf (mgr : Manager w) (name : Text) : Option NamespaceComp :=
  mgr.hAtomNamespace.bind fun table => (table.getAtomByName (some name)).bind fun atom => mgr.componentAt atom.hContext

def Owns (mgr : Manager w) (pCompName name : Text) : Prop :=
  ∃ comp, mgr.lookforComponent (some pCompName) = some comp ∧ mgr.ownerOf name = some comp ∧
    some name ∈ comp.paramspaceQueue.map CcspNamespace.pName

theorem find?_put {queue : List NamespaceComp} (test : NamespaceComp → Bool)
    (same : test changed = test comp) (distinct : (queue.map NamespaceComp.handle).Nodup)
    (handle : changed.handle = comp.handle) (found : queue.find? test = some comp) :
    (queue.map fun other => if other.handle = changed.handle then changed else other).find? test = some changed := by
  induction queue with
  | nil => cases found
  | cons first rest ih =>
    rw [List.map_cons, List.nodup_cons] at distinct
    rw [List.map_cons]
    cases passes : test first with
    | true =>
      rw [List.find?_cons_of_pos passes] at found
      obtain rfl := Option.some.inj found
      rw [if_pos handle.symm, List.find?_cons_of_pos (same.trans passes)]
    | false =>
      rw [List.find?_cons_of_neg (by simp [passes])] at found
      have other : first.handle ≠ changed.handle := by
        intro equal
        exact distinct.1 (equal ▸ handle ▸ List.mem_map_of_mem (List.mem_of_find?_eq_some found))
      rw [if_neg other, List.find?_cons_of_neg (by simp [passes])]
      exact ih distinct.2 found

theorem componentAt_of_mem (addressed : mgr.Addressed) (member : comp ∈ mgr.componentQueue) :
    mgr.componentAt comp.handle = some comp := by
  cases found : mgr.componentAt comp.handle with
  | none => simpa using List.find?_eq_none.mp found comp member
  | some other =>
    have same : other.handle = comp.handle := by simpa using List.find?_some found
    have present := List.mem_of_find?_eq_some found
    rw [List.inj_on_of_nodup_map addressed.distinct present member same]

theorem componentAt_putComponent (addressed : mgr.Addressed) (member : comp ∈ mgr.componentQueue)
    (handle : changed.handle = comp.handle) : (mgr.putComponent changed).componentAt comp.handle = some changed := by
  refine find?_put _ ?_ addressed.distinct handle (componentAt_of_mem addressed member)
  simp [handle]

theorem lookforComponent_putComponent (addressed : mgr.Addressed)
    (known : mgr.lookforComponent (some pCompName) = some comp) (handle : changed.handle = comp.handle)
    (named : changed.pCompName = comp.pCompName) :
    (mgr.putComponent changed).lookforComponent (some pCompName) = some changed := by
  refine find?_put _ ?_ addressed.distinct handle known
  simp [named]

theorem enlistComponent_known {pDbusPath pPrefix : Option Text} {enlisted : Manager w} (fits : pCompName.length < 256)
    (run : mgr.enlistComponent (some pCompName) pDbusPath pPrefix = (enlisted, comp)) :
    enlisted.lookforComponent (some pCompName) = some comp := by
  unfold enlistComponent at run
  split at run
  next found known =>
    obtain ⟨rfl, rfl⟩ := Prod.mk.inj run
    exact known
  next unknown =>
    obtain ⟨rfl, rfl⟩ := Prod.mk.inj run
    simp only [lookforComponent] at unknown ⊢
    rw [List.find?_append, unknown]
    simp [NamespaceComp.create, strcpyNoClobber, fits]

theorem addAtoms_getAtomByName {owner : Handle} {settled : List NameSpaceType} {table later : AtomTable w}
    (new : ∀ item ∈ settled, ∃ name, item.nameSpace = some name ∧ name ≠ [] ∧ table.getAtomByName (some name) = none)
    (run : addAtoms owner (some table) (settled.map some) = some (some later))
    {item : NameSpaceType} (member : item ∈ settled) (carried : item.nameSpace = some name) :
    ∃ atom, later.getAtomByName (some name) = some atom ∧ atom.hContext = owner := by
  obtain ⟨other, known, nonempty, unknown⟩ := new item member
  obtain rfl : other = name := Option.some.inj (known.symm.trans carried)
  have listed := addAtoms_listed owner settled run
  have added : item.registration owner ∈ tableListed (some later) := by
    rw [listed]
    refine Multiset.mem_add.mpr (.inr (List.mem_map_of_mem (List.mem_filter.mpr ⟨member, ?_⟩)))
    exact NameSpaceType.carriesName_of_nonempty carried nonempty
  cases found : later.getAtomByName (some other) with
  | none => exact absurd carried (not_listed_of_unknown nonempty found _ added)
  | some atom =>
    refine ⟨atom, rfl, ?_⟩
    obtain ⟨same, -, present⟩ := later.getAtomByName_some found
    have inTable : atomRegistration atom ∈ tableListed (some later) := Multiset.mem_map_of_mem _ present
    rw [listed] at inTable
    rcases Multiset.mem_add.mp inTable with old | fresh
    · exact absurd same.symm (not_listed_of_unknown nonempty unknown _ old)
    · obtain ⟨source, -, equal⟩ := List.mem_map.mp (Multiset.mem_coe.mp fresh)
      exact (congrArg Registration.owner equal).symm

end Owners

section Registration

variable {mgr after : Manager w} {pCompName : Text} {pDbusPath pPrefix : Option Text}

structure RegistersAll (mgr : Manager w) (pCompName : Text) (items : List (Option NameSpaceType))
    (status : Status) (after : Manager w) : Prop where
  success : status = .success → ∀ name ∈ itemNames items, after.Owns pCompName name
  failure : status ≠ .success → after = mgr

def IsNew (mgr : Manager w) (item : Option NameSpaceType) : Prop :=
  ∃ name type table, item = some ⟨some name, type⟩ ∧ wellFormedName name = true ∧ mgr.hAtomNamespace = some table ∧
    table.getAtomByName (some name) = none

theorem validateNamespaces_new {first : Option NameSpaceType} (new : mgr.IsNew first) (pCompName : Option Text)
    (rest : List (Option NameSpaceType)) :
    mgr.validateNamespaces pCompName (first :: rest) = mgr.validateNamespaces pCompName rest := by
  obtain ⟨name, type, table, rfl, formed, present, unknown⟩ := new
  simp only [validateNamespaces, formed, if_true, present, unknown]

theorem validateNamespaces_all_new (pCompName : Option Text) {items : List (Option NameSpaceType)}
    (new : ∀ item ∈ items, mgr.IsNew item) : mgr.validateNamespaces pCompName items = .pass := by
  induction items with
  | nil => rfl
  | cons first rest ih =>
    rw [validateNamespaces_new (new first List.mem_cons_self)]
    exact ih fun item member => new item (List.mem_cons_of_mem first member)

structure StopsAt (mgr : Manager w) (items before : List (Option NameSpaceType)) (name : Text)
    (owner : NamespaceComp) : Prop where
  split : ∃ type rest, items = before ++ some ⟨some name, type⟩ :: rest
  new : ∀ item ∈ before, mgr.IsNew item
  formed : wellFormedName name = true
  owned : mgr.ownerOf name = some owner

theorem ownerOf_eq {table : AtomTable w} {name : Text} {atom : AtomDescriptor}
    (present : mgr.hAtomNamespace = some table)
    (found : table.getAtomByName (some name) = some atom) : mgr.ownerOf name = mgr.componentAt atom.hContext := by
  simp [ownerOf, present, found]

theorem StopsAt.cons {first : Option NameSpaceType} {items before : List (Option NameSpaceType)} {name : Text}
    {owner : NamespaceComp} (stops : mgr.StopsAt items before name owner) (new : mgr.IsNew first) :
    mgr.StopsAt (first :: items) (first :: before) name owner := by
  obtain ⟨⟨type, rest, split⟩, earlier, formed, owned⟩ := stops
  exact ⟨⟨type, rest, by rw [split, List.cons_append]⟩, List.forall_mem_cons.mpr ⟨new, earlier⟩, formed, owned⟩

theorem validateNamespaces_stops {items before : List (Option NameSpaceType)} {name : Text} {owner : NamespaceComp}
    (stops : mgr.StopsAt items before name owner) (own : owner.pCompName = pCompName) :
    mgr.validateNamespaces (some pCompName) items = .reject .success := by
  obtain ⟨⟨type, rest, rfl⟩, new, formed, owned⟩ := stops
  induction before with
  | nil =>
    simp only [ownerOf, Option.bind_eq_some_iff] at owned
    obtain ⟨table, present, atom, found, located⟩ := owned
    simp only [List.nil_append, validateNamespaces, formed, if_true, present, found, located, own]
  | cons first before ih =>
    obtain ⟨head, earlier⟩ := List.forall_mem_cons.mp new
    rw [List.cons_append, validateNamespaces_new head]
    exact ih earlier

theorem validateNamespaces_cases (mgr : Manager w) (pCompName : Text) (items : List (Option NameSpaceType)) :
    match mgr.validateNamespaces (some pCompName) items with
    | .pass => ∀ item ∈ items, mgr.IsNew item
    | .reject .success => ∃ before name owner, mgr.StopsAt items before name owner ∧ owner.pCompName = pCompName
    | .reject _ => True
    | .fault => True := by
  induction items with
  | nil => simp [validateNamespaces]
  | cons first rest ih =>
    obtain _ | ⟨_ | name, type⟩ := first
    · simp [validateNamespaces]
    · simp [validateNamespaces]
    · by_cases formed : wellFormedName name = true
      next =>
        cases present : mgr.hAtomNamespace with
        | none => simp [validateNamespaces, formed, present]
        | some table =>
          cases found : table.getAtomByName (some name) with
          | none =>
            have new : mgr.IsNew (some ⟨some name, type⟩) := ⟨name, type, table, rfl, formed, present, found⟩
            rw [validateNamespaces_new new]
            split at ih
            next pass => exact List.forall_mem_cons.mpr ⟨new, ih⟩
            next stop =>
              obtain ⟨before, other, owner, stops, own⟩ := ih
              exact ⟨_, other, owner, stops.cons new, own⟩
            next => trivial
            next => trivial
          | some atom =>
            simp only [validateNamespaces, formed, if_true, present, found]
            cases located : mgr.componentAt atom.hContext with
            | none => trivial
            | some owner =>
              dsimp only
              by_cases own : owner.pCompName = pCompName
              next =>
                rw [if_pos own]
                exact ⟨[], name, owner,
                  ⟨⟨type, rest, rfl⟩, by simp, formed, (ownerOf_eq present found).trans located⟩, own⟩
              next =>
                rw [if_neg own]
                trivial
      next => simp [validateNamespaces, formed]

structure MeetsRegistration (mgr : Manager w) (pCompName : Text) (items : List (Option NameSpaceType)) : Prop where
  repeated : ∀ before name owner, mgr.StopsAt items before name owner → owner.pCompName = pCompName →
    ∀ other ∈ itemNames items, mgr.Owns pCompName other
  fits : (∀ item ∈ items, mgr.IsNew item) → items = [] ∨ pCompName.length < 256

theorem addAtoms_total (owner : Handle) (table : AtomTable w) (items : List (Option NameSpaceType)) :
    ∃ later, addAtoms owner (some table) items = some (some later) := by
  induction items generalizing table with
  | nil => exact ⟨table, rfl⟩
  | cons first rest ih =>
    cases first with
    | none => exact ih table
    | some item => exact ih (table.addAtomByName item.nameSpace item.dataType owner)

theorem Owns.short {name : Text} (sound : mgr.Sound) (owns : mgr.Owns pCompName name) : pCompName.length < 256 := by
  obtain ⟨comp, known, -, -⟩ := owns
  have named : comp.pCompName = pCompName := by simpa using List.find?_some known
  exact named ▸ sound.short comp (mgr.lookforComponent_mem known)

theorem addNamespaces_owns (addressed : mgr.Addressed) {settled : List NameSpaceType} {table : AtomTable w}
    (present : mgr.hAtomNamespace = some table) (fits : pCompName.length < 256)
    (new : ∀ item ∈ settled, ∃ name, item.nameSpace = some name ∧ name ≠ [] ∧ table.getAtomByName (some name) = none)
    {status : Status} (run : mgr.addNamespaces (some pCompName) pDbusPath pPrefix (settled.map some) =
      some (status, after))
    {name : Text} {item : NameSpaceType} (member : item ∈ settled) (carried : item.nameSpace = some name) :
    after.Owns pCompName name := by
  rcases enlist : mgr.enlistComponent (some pCompName) pDbusPath pPrefix with ⟨enlisted, comp⟩
  obtain ⟨placed, inQueue, -⟩ := mgr.enlistComponent_spec addressed _ _ _ enlist
  have known := enlistComponent_known fits enlist
  simp only [addNamespaces, enlist, present, Option.map_eq_some_iff, Prod.mk.injEq] at run
  obtain ⟨later, atoms, -, rfl⟩ := run
  let built := comp.buildFromNamespaceStructArray (settled.map some)
  have queued : some name ∈ built.paramspaceQueue.map CcspNamespace.pName := by
    refine List.mem_map.mpr ⟨NamespaceComp.entryOf item, List.mem_append_right _ ?_, carried⟩
    exact List.mem_map_of_mem (List.mem_filterMap.mpr ⟨some item, List.mem_map_of_mem member, rfl⟩)
  refine ⟨built, lookforComponent_putComponent placed known rfl rfl, ?_, queued⟩
  obtain ⟨table', total⟩ := addAtoms_total comp.handle table (settled.map some)
  obtain rfl : some table' = later := Option.some.inj (total.symm.trans atoms)
  obtain ⟨atom, found, own⟩ := addAtoms_getAtomByName new atoms member carried
  rw [ownerOf_eq rfl found, own]
  exact componentAt_putComponent placed inQueue rfl

theorem registerNamespaces_new (pCompName pDbusPath pPrefix : Option Text) {items : List (Option NameSpaceType)}
    (nonempty : items ≠ []) (new : ∀ item ∈ items, mgr.IsNew item) :
    ∃ after, mgr.registerNamespaces pCompName pDbusPath pPrefix items = some (.success, after) := by
  obtain ⟨first, rest, rfl⟩ := List.exists_cons_of_ne_nil nonempty
  obtain ⟨name, type, table, shape, -, present, -⟩ := new first List.mem_cons_self
  obtain ⟨later, atoms⟩ :=
    addAtoms_total (mgr.enlistComponent pCompName pDbusPath pPrefix).2.handle table (first :: rest)
  rw [registerNamespaces, validateNamespaces_all_new pCompName new]
  simp only [addNamespaces, present, atoms, Option.map_some]
  exact ⟨_, rfl⟩

theorem addNamespaces_registers (addressed : mgr.Addressed) {items : List (Option NameSpaceType)}
    (pass : mgr.validateNamespaces (some pCompName) items = .pass) (fits : items = [] ∨ pCompName.length < 256)
    {status : Status} (run : mgr.addNamespaces (some pCompName) pDbusPath pPrefix items = some (status, after)) :
    mgr.RegistersAll pCompName items status after := by
  obtain ⟨settled, rfl, each⟩ := mgr.validateNamespaces_pass _ items pass
  obtain rfl : status = .success := by
    simp only [addNamespaces, Option.map_eq_some_iff, Prod.mk.injEq] at run
    obtain ⟨_, -, same, -⟩ := run
    exact same.symm
  refine ⟨fun _ name member => ?_, fun failed => absurd rfl failed⟩
  obtain ⟨element, inside, carried⟩ := List.mem_filterMap.mp member
  obtain ⟨item, present, rfl⟩ := List.mem_map.mp inside
  obtain ⟨_, table, -, -, exists', -⟩ := each item present
  have short := fits.resolve_left (List.ne_nil_of_mem inside)
  refine addNamespaces_owns addressed exists' short (fun other among => ?_) run present carried
  obtain ⟨name', table', named, nonempty, present', unknown⟩ := each other among
  obtain rfl : table = table' := Option.some.inj (exists'.symm.trans present')
  exact ⟨name', named, nonempty, unknown⟩

theorem registration_settles_iff (mgr : Manager w) (reached : Reachable step (fun _ _ => True) create mgr)
    (pCompName : Text) (pDbusPath pPrefix : Option Text) (items : List (Option NameSpaceType)) :
    (∀ status after, mgr.registerNamespaces (some pCompName) pDbusPath pPrefix items = some (status, after) →
        mgr.RegistersAll pCompName items status after) ↔
      mgr.MeetsRegistration pCompName items := by
  have sound := reachable_sound reached
  constructor
  next =>
    intro settles
    constructor
    next =>
      intro before name owner stops own
      have scanned := validateNamespaces_stops stops own
      have run : mgr.registerNamespaces (some pCompName) pDbusPath pPrefix items = some (.success, mgr) := by
        rw [registerNamespaces, scanned]
      exact (settles .success mgr run).success rfl
    next =>
      intro new
      cases items with
      | nil => exact .inl rfl
      | cons first rest =>
        obtain ⟨name, type, _, shape, _⟩ := new first List.mem_cons_self
        obtain ⟨after, run⟩ :=
          registerNamespaces_new (some pCompName) pDbusPath pPrefix (List.cons_ne_nil first rest) new
        have sound' : after.Sound := step_sound sound
          (.registerNamespaces (some pCompName) pDbusPath pPrefix (first :: rest)) (by rw [step, run]; rfl)
        have owns := (settles .success after run).success rfl name (by simp [itemNames, shape])
        exact .inr (owns.short sound')
  next =>
    intro meets status after run
    have scan := mgr.validateNamespaces_cases pCompName items
    unfold registerNamespaces at run
    split at run
    next => cases run
    next rejected scanned =>
      simp only [Option.some.injEq, Prod.mk.injEq] at run
      obtain ⟨rfl, rfl⟩ := run
      refine ⟨fun success => ?_, fun _ => rfl⟩
      rw [scanned, success] at scan
      obtain ⟨before, name, owner, stops, own⟩ := scan
      exact meets.repeated before name owner stops own
    next pass =>
      have new : ∀ item ∈ items, mgr.IsNew item := by
        rw [pass] at scan
        exact scan
      exact addNamespaces_registers sound.addressed pass (meets.fits new) run

theorem registration_settles_first :
    ∃ after, (create : Manager 64).registerNamespaces (some "A".toList) none none
        [some ⟨some "Device.x".toList, .string⟩, some ⟨some "Device.y".toList, .int⟩] = some (.success, after) ∧
      create.RegistersAll "A".toList
        [some ⟨some "Device.x".toList, .string⟩, some ⟨some "Device.y".toList, .int⟩] .success after := by
  have meets : (create : Manager 64).MeetsRegistration "A".toList
      [some ⟨some "Device.x".toList, .string⟩, some ⟨some "Device.y".toList, .int⟩] := by
    refine ⟨?_, fun _ => .inr (by decide)⟩
    intro before name owner stops
    have unowned : (create : Manager 64).ownerOf name = none := by
      rw [ownerOf]
      have empty : ∀ handle, (create : Manager 64).componentAt handle = none := fun _ => rfl
      simp [empty]
    exact absurd (unowned.symm.trans stops.owned) (by simp)
  exact ⟨_, rfl, (registration_settles_iff create .start _ none none _).mpr meets .success _ rfl⟩

/-- Registering `Device.x` again together with the new `Device.z` succeeds and leaves `Device.z` out. -/
theorem registration_skips_new_name :
    ¬ ∀ mgr : Manager 64, Reachable step (fun _ _ => True) create mgr → ∀ pCompName items status after,
      mgr.registerNamespaces (some pCompName) none none items = some (status, after) →
        mgr.RegistersAll pCompName items status after := by
  intro always
  let calls : List Call := [.registerNamespaces (some "A".toList) none none [some ⟨some "Device.x".toList, .string⟩]]
  obtain ⟨mgr, run⟩ : ∃ mgr : Manager 64, runAll step create calls = some mgr := ⟨_, rfl⟩
  have reached := runAll_reachable calls (fun _ _ _ => trivial) .start run
  obtain rfl := Option.some.inj run
  have settled := always _ reached "A".toList
    [some ⟨some "Device.x".toList, .string⟩, some ⟨some "Device.z".toList, .string⟩] .success _ rfl
  obtain ⟨comp, -, owned, -⟩ := settled.success rfl "Device.z".toList (by simp [itemNames])
  cases owned

end Registration

section Unregistration

variable {mgr after : Manager w} {pCompName name : Text} {comp : NamespaceComp}

structure Removes (mgr after : Manager w) (comp : NamespaceComp) (name : Text) : Prop where
  entry : ∃ type, mgr.listed = ⟨some name, type, comp.handle⟩ ::ₘ after.listed ∧
    mgr.registered = ⟨some name, type, comp.handle⟩ ::ₘ after.registered
  queues : after.componentQueue = mgr.componentQueue.map fun other =>
    if other.handle = comp.handle then
      { comp with paramspaceQueue := comp.paramspaceQueue.eraseP fun entry => entry.pName = some name }
    else other
  counted : after.uTotalNamespace = mgr.uTotalNamespace - 1

def UnregistersExactly (mgr : Manager w) (pCompName name : Text) : Prop :=
  ∃ status after, mgr.unregisterNamespace (some pCompName) (some name) = some (status, after) ∧
    (status = .success → mgr.Owns pCompName name ∧
      ∃ comp, mgr.lookforComponent (some pCompName) = some comp ∧ mgr.Removes after comp name) ∧
    (¬ mgr.Owns pCompName name → status ≠ .success ∧ after = mgr)

structure Queued (queue before : List CcspNamespace) (entry : CcspNamespace) (rest : List CcspNamespace)
    (name : Text) : Prop where
  split : queue = before ++ entry :: rest
  others : ∀ other ∈ before, other.pName ≠ none ∧ other.pName ≠ some name
  named : entry.pName = some name

theorem popScanned_queued {queue before rest : List CcspNamespace} {entry : CcspNamespace}
    (queued : Queued queue before entry rest name) :
    NamespaceComp.popScanned (some name) queue = some (before ++ rest) := by
  obtain ⟨rfl, others, named⟩ := queued
  induction before with
  | nil => simp [NamespaceComp.popScanned, named]
  | cons first before ih =>
    obtain ⟨head, later⟩ := List.forall_mem_cons.mp others
    obtain ⟨other, known⟩ := Option.ne_none_iff_exists'.mp head.1
    have different : other ≠ name := fun same => head.2 (by rw [known, same])
    rw [List.cons_append, NamespaceComp.popScanned_later known different (by simp), ih later]
    rfl

theorem exists_queued {queue popped : List CcspNamespace}
    (run : NamespaceComp.popScanned (some name) queue = some popped)
    (member : some name ∈ queue.map CcspNamespace.pName) :
    ∃ before entry rest, Queued queue before entry rest name := by
  induction queue generalizing popped with
  | nil => cases member
  | cons first rest ih =>
    cases pName : first.pName with
    | none => simp [NamespaceComp.popScanned, pName] at run
    | some other =>
      by_cases same : other = name
      next => exact ⟨[], first, rest, rfl, by simp, by rw [pName, same]⟩
      next =>
        have later : some name ∈ rest.map CcspNamespace.pName := by
          rw [List.map_cons, List.mem_cons, pName] at member
          exact member.resolve_left fun equal => same (Option.some.inj equal).symm
        have more : rest ≠ [] := by
          intro none
          simp [none] at later
        rw [NamespaceComp.popScanned_later pName same more, Option.map_eq_some_iff] at run
        obtain ⟨shorter, run, -⟩ := run
        obtain ⟨before, entry, last, split, others, named⟩ := ih run later
        refine ⟨first :: before, entry, last, by rw [split, List.cons_append], ?_, named⟩
        refine List.forall_mem_cons.mpr ⟨⟨by simp [pName], ?_⟩, others⟩
        rw [pName]
        exact fun equal => same (Option.some.inj equal)

theorem Queued.eraseP {queue before rest : List CcspNamespace} {entry : CcspNamespace}
    (queued : Queued queue before entry rest name) :
    queue.eraseP (fun entry => entry.pName = some name) = before ++ rest := by
  obtain ⟨rfl, others, named⟩ := queued
  rw [List.eraseP_append_right _ fun other member => by simpa using (others other member).2,
    List.eraseP_cons_of_pos (by simpa using named)]

theorem Queued.find? {queue before rest : List CcspNamespace} {entry : CcspNamespace}
    (queued : Queued queue before entry rest name) :
    queue.find? (fun other => other.pName = some name) = some entry := by
  obtain ⟨rfl, others, named⟩ := queued
  rw [List.find?_append, List.find?_eq_none.mpr fun other member => by simpa using (others other member).2]
  simp [named]

def MeetsUnregistration (mgr : Manager w) (pCompName name : Text) : Prop :=
  ∃ comp, mgr.lookforComponent (some pCompName) = some comp ∧ (comp.depth = 0 ∨
    ∃ table, mgr.hAtomNamespace = some table ∧ ∀ atom, table.getAtomByName (some name) = some atom →
      atom.hContext = comp.handle ∧ ∃ before entry rest,
        Queued comp.paramspaceQueue before entry rest name ∧ entry.uType = atom.atomId)

theorem DeletesAtom.unregisterNamespace {table : AtomTable w} {atom : AtomDescriptor}
    (deletes : mgr.DeletesAtom (some pCompName) (some name) comp table atom) :
    mgr.unregisterNamespace (some pCompName) (some name) =
      (comp.unregisterNamespace (some name)).map fun changed =>
        (.success, { mgr.putComponent changed with
          hAtomNamespace := some (table.delAtomByName (some name))
          uTotalNamespace := mgr.uTotalNamespace - 1 }) := by
  simp only [Manager.unregisterNamespace, deletes.known, deletes.queued, deletes.present, deletes.found, false_and,
    ne_eq, reduceCtorEq, not_false_eq_true, and_false, if_false]

theorem DeletesAtom.removes {table : AtomTable w} {atom : AtomDescriptor}
    (deletes : mgr.DeletesAtom (some pCompName) (some name) comp table atom) (addressed : mgr.Addressed)
    (own : atom.hContext = comp.handle) {before rest : List CcspNamespace} {entry : CcspNamespace}
    (queued : Queued comp.paramspaceQueue before entry rest name) (sameType : entry.uType = atom.atomId) :
    mgr.Owns pCompName name ∧ ∃ after, mgr.unregisterNamespace (some pCompName) (some name) = some (.success, after) ∧
      mgr.Removes after comp name := by
  have member := mgr.lookforComponent_mem deletes.known
  have popped := popScanned_queued queued
  have sameName : name = atom.atomName := Option.some.inj (table.getAtomByName_some deletes.found).1
  obtain ⟨-, taken⟩ := mgr.unregisterNamespace_owned addressed member queued.find? popped
  have sameEntry : entry.registration comp.handle = ⟨some name, atom.atomId, comp.handle⟩ := by
    rw [CcspNamespace.registration, queued.named, sameType]
  have run := deletes.unregisterNamespace
  rw [NamespaceComp.unregisterNamespace, popped, Option.map_some, Option.map_some] at run
  refine ⟨⟨comp, deletes.known, ?_, ?_⟩, _, run, ⟨atom.atomId, ?_, ?_⟩, ?_, rfl⟩
  · rw [ownerOf_eq deletes.present deletes.found, own]
    exact componentAt_of_mem addressed member
  · rw [queued.split, ← queued.named]
    exact List.mem_map_of_mem (by simp)
  · have removed := table.delAtomByName_entries deletes.found
    simp only [listed, deletes.present, tableListed]
    rw [← removed, Multiset.map_cons, atomRegistration, own, sameName]
  · rw [taken, sameEntry]
    rfl
  · rw [queued.eraseP]
    rfl

theorem DeletesAtom.queued_first {table : AtomTable w} {atom : AtomDescriptor}
    (deletes : mgr.DeletesAtom (some pCompName) (some name) comp table atom) (addressed : mgr.Addressed)
    {status : Status}
    (run : mgr.unregisterNamespace (some pCompName) (some name) = some (status, after)) (owns : mgr.Owns pCompName name)
    (removes : mgr.Removes after comp name) :
    atom.hContext = comp.handle ∧ ∃ before entry rest,
      Queued comp.paramspaceQueue before entry rest name ∧ entry.uType = atom.atomId := by
  obtain ⟨other, known, located, member⟩ := owns
  obtain rfl : comp = other := Option.some.inj (deletes.known.symm.trans known)
  rw [ownerOf_eq deletes.present deletes.found] at located
  have own : comp.handle = atom.hContext := by simpa using List.find?_some located
  rw [deletes.unregisterNamespace, NamespaceComp.unregisterNamespace, Option.map_map, Option.map_eq_some_iff] at run
  obtain ⟨queue, popped, result⟩ := run
  obtain ⟨-, rfl⟩ := Prod.mk.inj result
  obtain ⟨before, entry, rest, queued⟩ := exists_queued popped member
  obtain ⟨-, taken⟩ := mgr.unregisterNamespace_owned addressed (mgr.lookforComponent_mem known) queued.find? popped
  refine ⟨own.symm, before, entry, rest, queued, ?_⟩
  obtain ⟨type, fromTable, fromQueue⟩ := removes.entry
  have removed := table.delAtomByName_entries deletes.found
  simp only [listed, deletes.present, tableListed] at fromTable
  rw [← removed, Multiset.map_cons] at fromTable
  have atomType : atom.atomId = type := congrArg Registration.type ((Multiset.cons_inj_left _).mp fromTable)
  have entryType : entry.uType = type :=
    congrArg Registration.type ((Multiset.cons_inj_left _).mp (taken.symm.trans fromQueue))
  rw [entryType, atomType]

theorem unregistration_exact_iff (mgr : Manager w) (reached : Reachable step (fun _ _ => True) create mgr)
    (pCompName name : Text) : mgr.UnregistersExactly pCompName name ↔ mgr.MeetsUnregistration pCompName name := by
  have addressed := (reachable_sound reached).addressed
  constructor
  next =>
    intro exact
    obtain ⟨status, after, run, success, -⟩ := exact
    cases known : mgr.lookforComponent (some pCompName) with
    | none => simp [unregisterNamespace, known] at run
    | some comp =>
      refine ⟨comp, known, ?_⟩
      by_cases empty : comp.depth = 0
      next => exact .inl empty
      next =>
        cases present : mgr.hAtomNamespace with
        | none => simp [unregisterNamespace, known, empty, present] at run
        | some table =>
          refine .inr ⟨table, rfl, fun atom found => ?_⟩
          have deletes : mgr.DeletesAtom (some pCompName) (some name) comp table atom := ⟨known, empty, present, found⟩
          have done : status = .success := by
            rw [deletes.unregisterNamespace, Option.map_eq_some_iff] at run
            obtain ⟨_, -, result⟩ := run
            exact (Prod.mk.inj result).1.symm
          obtain ⟨owns, other, same, removes⟩ := success done
          obtain rfl : comp = other := Option.some.inj (known.symm.trans same)
          exact deletes.queued_first addressed run owns removes
  next =>
    intro meets
    obtain ⟨comp, known, cases⟩ := meets
    have refused (run : mgr.unregisterNamespace (some pCompName) (some name) = some (.namespaceMismatch, mgr)) :
        mgr.UnregistersExactly pCompName name := ⟨_, mgr, run, by simp, fun _ => ⟨by simp, rfl⟩⟩
    by_cases empty : comp.depth = 0
    next => exact refused (by simp [unregisterNamespace, known, empty])
    next =>
      obtain ⟨table, present, owned⟩ := cases.resolve_left empty
      cases found : table.getAtomByName (some name) with
      | none => exact refused (by simp [unregisterNamespace, known, empty, present, found])
      | some atom =>
        obtain ⟨own, before, entry, rest, queued, sameType⟩ := owned atom found
        have deletes : mgr.DeletesAtom (some pCompName) (some name) comp table atom := ⟨known, empty, present, found⟩
        obtain ⟨owns, after, run, removes⟩ := deletes.removes addressed own queued sameType
        exact ⟨.success, after, run, fun _ => ⟨owns, comp, known, removes⟩, fun foreign => absurd owns foreign⟩

theorem unregistration_exact_registered : ∃ mgr : Manager 64,
    create.step (.registerNamespaces (some "A".toList) none none [some ⟨some "Device.x".toList, .string⟩]) = some mgr ∧
      mgr.UnregistersExactly "A".toList "Device.x".toList := by
  refine ⟨_, rfl, (unregistration_exact_iff _ (Reachable.start.via (.registerNamespaces (some "A".toList) none none
    [some ⟨some "Device.x".toList, .string⟩]) trivial rfl) _ _).mpr ?_⟩
  refine ⟨_, rfl, .inr ⟨_, rfl, fun atom found => ?_⟩⟩
  obtain rfl := Option.some.inj found
  exact ⟨rfl, [], _, [], ⟨rfl, by simp, rfl⟩, rfl⟩

/-- Component B unregisters `Device.x` of component A: the call succeeds. -/
theorem foreign_unregistration_succeeds :
    ¬ ∀ mgr : Manager 64, Reachable step (fun _ _ => True) create mgr →
      ∀ pCompName name, mgr.UnregistersExactly pCompName name := by
  intro always
  let calls : List Call :=
    [.registerNamespaces (some "A".toList) none none [some ⟨some "Device.x".toList, .string⟩],
     .registerNamespaces (some "B".toList) none none [some ⟨some "Device.y".toList, .string⟩]]
  obtain ⟨mgr, run⟩ : ∃ mgr : Manager 64, runAll step create calls = some mgr := ⟨_, rfl⟩
  have reached := runAll_reachable calls (fun _ _ _ => trivial) .start run
  obtain rfl := Option.some.inj run
  obtain ⟨status, after, done, success, -⟩ := always _ reached "B".toList "Device.x".toList
  obtain ⟨same, -⟩ := Prod.mk.inj (Option.some.inj done)
  obtain ⟨⟨comp, known, owned, -⟩, -⟩ := success same.symm
  have different : "B".toList = "A".toList :=
    congrArg NamespaceComp.pCompName ((Option.some.inj known).trans (Option.some.inj owned).symm)
  revert different
  decide

end Unregistration

end CcspCommon.NamespaceMgr.Manager
