import CcspCommon.AliasMgr.Answers

set_option autoImplicit false

namespace CcspCommon.AliasMgr

open CcspCommon.Shared
open CcspCommon.AnscPlatform (tcAllocate ushort)

def AliasManager.SameAnswers (mgr other : AliasManager) : Prop :=
  ∀ name, SameNames (findAliases mgr.extTree name) (findAliases other.extTree name) ∧
    SameNames (findAliases mgr.intTree name) (findAliases other.intTree name)

-- How many aliases a path is mapped to, as a `USHORT` counts them.
noncomputable def aliasDepth (items : List TreeItem) (query : List Text) : Nat :=
  ushort (Set.ncard {aliasName | Maps items query aliasName})

noncomputable def strictDepth (items : List TreeItem) (query : List Text) : Nat :=
  ushort (Set.ncard {aliasName | MapsStrictly items query aliasName})

def Covered (items : List TreeItem) (query : List Text) : Prop :=
  ∃ path, path <+: query ∧ aliasDepth items path ≠ 0

-- The tokens of the strict aliases of a path, as long as their list does not count as empty.
def StrictTokens (items : List TreeItem) (query target : List Text) : Prop :=
  strictDepth items query ≠ 0 ∧ ∃ aliasName, MapsStrictly items query aliasName ∧ tokens '.' aliasName = target

def AgreeStrictly (items others : List TreeItem) : Prop :=
  ∀ query, (∀ token ∈ query, isNameInsIdentifier token = false) → ¬ Covered items query →
    ∀ target, StrictTokens items query target ↔ StrictTokens others query target

section Permuted

variable {items others : List TreeItem} (perm : items.Perm others)

include perm

theorem maps_perm (query : List Text) (aliasName : Text) :
    Maps items query aliasName ↔ Maps others query aliasName := by
  simp only [Maps, perm.mem_iff]

theorem aliasDepth_perm (query : List Text) : aliasDepth items query = aliasDepth others query := by
  simp only [aliasDepth, maps_perm perm]

theorem covered_perm (query : List Text) : Covered items query ↔ Covered others query := by
  simp only [Covered, aliasDepth_perm perm]

end Permuted

section Depths

variable (items : List TreeItem)

theorem aliases_isEmpty_iff (query : List Text) :
    stringSListIsEmpty ((AliasTree.build items).listsAt query).aliases ↔ aliasDepth items query = 0 := by
  rw [stringSListIsEmpty, AliasTree.length_aliases_build, aliasDepth]

theorem strictAliases_isEmpty_iff (query : List Text) :
    stringSListIsEmpty ((AliasTree.build items).listsAt query).strictAliases ↔ strictDepth items query = 0 := by
  rw [stringSListIsEmpty, AliasTree.length_strictAliases_build, strictDepth]

variable {items}

theorem exists_maps {query : List Text} (some : aliasDepth items query ≠ 0) :
    ∃ aliasName, Maps items query aliasName := by
  by_contra none
  simp only [not_exists] at none
  simp [aliasDepth, none, ushort] at some

theorem exists_mapsStrictly {query : List Text} (some : strictDepth items query ≠ 0) :
    ∃ aliasName, MapsStrictly items query aliasName := by
  by_contra none
  simp only [not_exists] at none
  simp [strictDepth, none, ushort] at some

theorem strictDepth_eq_zero_iff {others : List TreeItem} {query : List Text}
    (agree : ∀ target, StrictTokens items query target ↔ StrictTokens others query target) :
    strictDepth items query = 0 ↔ strictDepth others query = 0 := by
  have counted {first second : List TreeItem}
      (gives : ∀ target, StrictTokens first query target → StrictTokens second query target)
      (none : strictDepth second query = 0) : strictDepth first query = 0 := by
    by_contra some
    obtain ⟨aliasName, maps⟩ := exists_mapsStrictly some
    exact (gives _ ⟨some, aliasName, maps, rfl⟩).1 none
  exact ⟨counted fun target => (agree target).mpr, counted fun target => (agree target).mp⟩

theorem aliases_build_isEmpty {query path : List Text} (uncovered : ¬ Covered items query)
    (above : path <+: query) : stringSListIsEmpty ((AliasTree.build items).listsAt path).aliases := by
  rw [aliases_isEmpty_iff]
  by_contra some
  exact uncovered ⟨path, above, some⟩

end Depths

theorem childName_not_identifier (token : Text) : isNameInsIdentifier (childName token) = false := by
  rw [childName]
  cases identifier : isNameInsIdentifier token with
  | true =>
    have literal : isNameInsIdentifier placeholder = false := by decide
    simpa using literal
  | false => simpa using identifier

theorem firstHit_alike {items others : List TreeItem} (perm : items.Perm others)
    (agree : AgreeStrictly items others) (rest : List Text) {done : List Text} (insIds : List Text)
    (plainDone : ∀ token ∈ done, isNameInsIdentifier token = false) (uncovered : ¬ Covered items done) :
    Option.Rel Found.Alike (firstHit (AliasTree.build items).listsAt done rest insIds)
      (firstHit (AliasTree.build others).listsAt done rest insIds) := by
  induction rest generalizing done insIds with
  | nil => exact .none
  | cons token rest ih =>
    set here := done ++ [childName token] with isHere
    have plainHere : ∀ token ∈ here, isNameInsIdentifier token = false := by
      intro other member
      rcases List.mem_append.mp member with before | last
      · exact plainDone other before
      · rw [List.mem_singleton.mp last]
        exact childName_not_identifier token
    have sameAliases : SameTokens ((AliasTree.build items).listsAt here).aliases
        ((AliasTree.build others).listsAt here).aliases := by
      intro target
      simp only [AliasTree.mem_aliases_build, maps_perm perm]
    have sameDepth : stringSListIsEmpty ((AliasTree.build items).listsAt here).aliases ↔
        stringSListIsEmpty ((AliasTree.build others).listsAt here).aliases := by
      rw [aliases_isEmpty_iff, aliases_isEmpty_iff, aliasDepth_perm perm]
    simp only [firstHit, ← isHere]
    generalize (if isNameInsIdentifier token = true then insIds ++ [token] else insIds) = collected
    by_cases goesOn : stringSListIsEmpty ((AliasTree.build items).listsAt here).aliases
    · have alsoGoesOn := sameDepth.mp goesOn
      -- no lookup stops here, so nothing is covered that was not covered before
      have still : ¬ Covered items here := by
        rintro ⟨path, above, some⟩
        rcases List.prefix_concat_iff.mp above with whole | before
        · rw [← isHere] at whole
          rw [whole] at some
          exact some ((aliases_isEmpty_iff items here).mp goesOn)
        · exact uncovered ⟨path, before, some⟩
      have agreeHere := agree here plainHere still
      have sameStrictDepth : stringSListIsEmpty ((AliasTree.build items).listsAt here).strictAliases ↔
          stringSListIsEmpty ((AliasTree.build others).listsAt here).strictAliases := by
        rw [strictAliases_isEmpty_iff, strictAliases_isEmpty_iff]
        exact strictDepth_eq_zero_iff agreeHere
      by_cases last : rest = [] ∧ ¬ stringSListIsEmpty ((AliasTree.build items).listsAt here).strictAliases
      · have alsoLast : rest = [] ∧ ¬ stringSListIsEmpty ((AliasTree.build others).listsAt here).strictAliases :=
          ⟨last.1, fun empty => last.2 (sameStrictDepth.mpr empty)⟩
        have some := mt (strictAliases_isEmpty_iff items here).mpr last.2
        have alsoSome := mt (strictAliases_isEmpty_iff others here).mpr alsoLast.2
        have sameStrict : SameTokens ((AliasTree.build items).listsAt here).strictAliases
            ((AliasTree.build others).listsAt here).strictAliases := by
          intro target
          simpa [StrictTokens, some, alsoSome, AliasTree.mem_strictAliases_build] using agreeHere target
        rw [if_pos (.inr last), if_pos (.inr alsoLast)]
        refine .some ⟨rfl, rfl, ?_, ?_⟩
        · simpa [Found.aliasList, goesOn, alsoGoesOn] using sameStrictDepth
        · simpa [Found.aliasList, goesOn, alsoGoesOn] using sameStrict
      · have notLast : ¬ (rest = [] ∧ ¬ stringSListIsEmpty ((AliasTree.build others).listsAt here).strictAliases) :=
          fun alsoLast => last ⟨alsoLast.1, fun empty => alsoLast.2 (sameStrictDepth.mp empty)⟩
        rw [if_neg (by simpa [goesOn] using last), if_neg (by simpa [alsoGoesOn] using notLast)]
        exact ih collected plainHere still
    · have alsoStops : ¬ stringSListIsEmpty ((AliasTree.build others).listsAt here).aliases :=
        fun empty => goesOn (sameDepth.mpr empty)
      rw [if_pos (.inl goesOn), if_pos (.inl alsoStops)]
      refine .some ⟨rfl, rfl, ?_, ?_⟩
      · simp [Found.aliasList, goesOn, alsoStops]
      · simpa [Found.aliasList, goesOn, alsoStops] using sameAliases

theorem not_covered_nil (items : List TreeItem) : ¬ Covered items [] := by
  rintro ⟨path, above, some⟩
  obtain rfl := List.prefix_nil.mp above
  obtain ⟨aliasName, item, -, loads, -, root, -⟩ := exists_maps some
  exact TreeItem.path_ne_nil loads root

theorem sameNames_of_agreeStrictly {items others : List TreeItem} (perm : items.Perm others)
    (agree : AgreeStrictly items others) (name : Text) :
    SameNames (findAliases (.build items) name) (findAliases (.build others) name) := by
  rw [findAliases_eq, findAliases_eq]
  cases tcAllocate '.' name with
  | none => exact fun _ => Iff.rfl
  | some nameTokens =>
    have alike := firstHit_alike perm agree nameTokens [] (by simp) (not_covered_nil items)
    simp only [Option.bind_some]
    generalize firstHit (AliasTree.build items).listsAt [] nameTokens [] = found at alike ⊢
    generalize firstHit (AliasTree.build others).listsAt [] nameTokens [] = other at alike ⊢
    cases alike with
    | none => exact fun _ => Iff.rfl
    | some similar => exact sameNames_namesOf similar _

section Queries

theorem firstHit_uncovered {lists : List Text → AliasLists} (rest : List Text) {done insIds : List Text}
    (nonempty : rest ≠ []) (plain : ∀ token ∈ rest, isNameInsIdentifier token = false)
    (none : ∀ path, path <+: done ++ rest → stringSListIsEmpty (lists path).aliases) :
    firstHit lists done rest insIds =
      if ¬ stringSListIsEmpty (lists (done ++ rest)).strictAliases then some ⟨lists (done ++ rest), insIds, []⟩
      else Option.none := by
  induction rest generalizing done with
  | nil => exact absurd rfl nonempty
  | cons token rest ih =>
    have literal : isNameInsIdentifier token = false := plain token List.mem_cons_self
    have here : stringSListIsEmpty (lists (done ++ [token])).aliases := none _ (by simp)
    simp only [firstHit, childName, literal, Bool.false_eq_true, if_false, here, not_true_eq_false, false_or]
    cases rest with
    | nil => simp [firstHit]
    | cons next more =>
      simp only [reduceCtorEq, false_and, if_false]
      rw [ih (by simp) (fun other member => plain other (List.mem_cons_of_mem token member))
        (by simpa using none)]
      simp

theorem MapsStrictly.bounds {items : List TreeItem} {query : List Text} {aliasName : Text}
    (maps : MapsStrictly items query aliasName) :
    aliasName.length ≤ nameLength ∧ query ≠ [] ∧ ∃ item : TreeItem, query <+: item.path := by
  obtain ⟨before, item, after, -, loads, ⟨-, rfl, rfl⟩ | ⟨-, -, member⟩⟩ := maps
  · exact ⟨item.aliasFits, TreeItem.path_ne_nil loads, item, List.prefix_rfl⟩
  · obtain ⟨nonempty, above⟩ := TreeItem.mem_auxiliary member
    exact ⟨TreeItem.length_auxiliary member, nonempty, item, above⟩

theorem mem_findAliases_uncovered {items : List TreeItem} {query : List Text} (nonempty : query ≠ [])
    (item : TreeItem) (above : query <+: item.path)
    (plain : ∀ token ∈ query, isNameInsIdentifier token = false) (uncovered : ¬ Covered items query)
    (name : Text) :
    name ∈ (findAliases (.build items) (joinTokens '.' query)).getD [] ↔
      strictDepth items query ≠ 0 ∧
        ∃ aliasName, MapsStrictly items query aliasName ∧ name = joinTokens '.' (tokens '.' aliasName) ++
          if (joinTokens '.' query).getLast? = some '.' then ['.'] else [] := by
  have proper : ∀ token ∈ query, IsToken '.' token :=
    fun token member => tokens_isToken '.' item.name token (above.subset member)
  have short : (joinTokens '.' query).length ≤ nameLength := by
    obtain ⟨rest, whole⟩ := above
    have shorter := length_joinTokens_append '.' query rest
    rw [whole] at shorter
    exact shorter.trans ((length_joinTokens_tokens '.' item.name).trans item.nameFits)
  have none : ∀ path, path <+: [] ++ query → stringSListIsEmpty ((AliasTree.build items).listsAt path).aliases :=
    fun path before => aliases_build_isEmpty uncovered (by simpa using before)
  have goesOn := none query (by simp)
  rw [findAliases_eq, tcAllocate_of_fits short, tokens_joinTokens_self '.' proper, Option.bind_some,
    firstHit_uncovered query nonempty plain none, List.nil_append]
  by_cases empty : stringSListIsEmpty ((AliasTree.build items).listsAt query).strictAliases
  · have zero := (strictAliases_isEmpty_iff items query).mp empty
    simp [empty, zero]
  · have depth := mt (strictAliases_isEmpty_iff items query).mpr empty
    rw [if_pos empty]
    simp only [Option.bind_some, namesOf, appendRemaining, Found.aliasList, goesOn, not_true_eq_false, if_false,
      if_neg empty, mem_collectNames, List.not_mem_nil, false_or, AliasTree.mem_strictAliases_build,
      List.append_nil, decide_eq_true_eq, ne_eq, depth, not_false_eq_true, true_and]
    constructor
    · rintro ⟨-, aliasName, maps, result, replaced, rfl⟩
      rw [replaceInstanceIds_nil maps.bounds.1] at replaced
      cases replaced
      exact ⟨aliasName, maps, rfl⟩
    · rintro ⟨aliasName, maps, rfl⟩
      exact ⟨fun _ _ _ _ => .inl rfl, aliasName, maps, _, replaceInstanceIds_nil maps.bounds.1, rfl⟩

theorem strictTokens_of_sameNames {items others : List TreeItem}
    (same : ∀ name, SameNames (findAliases (.build items) name) (findAliases (.build others) name))
    {query target : List Text} (plain : ∀ token ∈ query, isNameInsIdentifier token = false)
    (uncovered : ¬ Covered items query) (alsoUncovered : ¬ Covered others query)
    (mapped : StrictTokens items query target) : StrictTokens others query target := by
  obtain ⟨depth, aliasName, maps, rfl⟩ := mapped
  obtain ⟨-, nonempty, item, above⟩ := maps.bounds
  have answers := mem_findAliases_uncovered nonempty item above plain uncovered
  have otherAnswers := mem_findAliases_uncovered nonempty item above plain alsoUncovered
  have answered := (answers _).mpr ⟨depth, aliasName, maps, rfl⟩
  rw [same, otherAnswers] at answered
  obtain ⟨otherDepth, similar, otherMaps, spelled⟩ := answered
  refine ⟨otherDepth, similar, otherMaps, ?_⟩
  exact joinTokens_injective '.' (tokens_isToken '.' similar) (tokens_isToken '.' aliasName)
    (List.append_cancel_right spelled.symm)

end Queries

theorem sameNames_iff_agreeStrictly {items others : List TreeItem} (perm : items.Perm others) :
    (∀ name, SameNames (findAliases (.build items) name) (findAliases (.build others) name)) ↔
      AgreeStrictly items others := by
  constructor
  · intro same query plain uncovered target
    have alsoUncovered : ¬ Covered others query := fun covered => uncovered ((covered_perm perm query).mpr covered)
    exact ⟨strictTokens_of_sameNames same plain uncovered alsoUncovered,
      strictTokens_of_sameNames (fun name other => (same name other).symm) plain alsoUncovered uncovered⟩
  · exact fun agree name => sameNames_of_agreeStrictly perm agree name

theorem mapsStrictly_perm {items others : List TreeItem} (perm : items.Perm others)
    (apart : ∀ item ∈ items, item.bStrict = false → item.shared = []) {query : List Text} {aliasName : Text}
    (maps : MapsStrictly items query aliasName) : MapsStrictly others query aliasName := by
  obtain ⟨before, item, after, rfl, loads, maps⟩ := maps
  have member : item ∈ before ++ item :: after := by simp
  obtain ⟨front, back, rfl⟩ := List.append_of_mem (perm.mem_iff.mp member)
  refine ⟨front, item, back, rfl, loads, ?_⟩
  rcases maps with strict | ⟨plain, -, auxiliary⟩
  · exact .inl strict
  · exact .inr ⟨plain, .inl (apart item member plain), auxiliary⟩

theorem agreeStrictly_of_apart {items others : List TreeItem} (perm : items.Perm others)
    (apart : ∀ item ∈ items, item.bStrict = false → item.shared = []) : AgreeStrictly items others := by
  have alsoApart : ∀ item ∈ others, item.bStrict = false → item.shared = [] :=
    fun item member => apart item (perm.mem_iff.mpr member)
  intro query _ _ target
  have same (aliasName : Text) : MapsStrictly items query aliasName ↔ MapsStrictly others query aliasName :=
    ⟨mapsStrictly_perm perm apart, mapsStrictly_perm perm.symm alsoApart⟩
  simp only [StrictTokens, strictDepth, same]

end CcspCommon.AliasMgr
