import CcspCommon.AliasMgr.Items

set_option autoImplicit false

namespace CcspCommon.AliasMgr

open CcspCommon.Shared

section Items

variable (items : List TreeItem) (query : List Text) (aliasName : Text)

def Maps : Prop :=
  ∃ item ∈ items, item.loads = true ∧ item.bStrict = false ∧ item.path = query ∧ item.aliasName = aliasName

def OnWay : Prop := query ≠ [] ∧ ∃ item ∈ items, item.loads = true ∧ query <+: item.path

/-- What an item maps strictly when it comes behind the items `before`: its own name if it is strict,
and otherwise partial names, for which the part shared with its alias must be there. -/
def MapsStrictlyAfter (before : List TreeItem) (item : TreeItem) : Prop :=
  item.loads = true ∧
    ((item.bStrict = true ∧ query = item.path ∧ aliasName = item.aliasName) ∨
      (item.bStrict = false ∧ (item.shared = [] ∨ OnWay before item.shared) ∧
        (query, aliasName) ∈ item.auxiliary))

def MapsStrictly : Prop :=
  ∃ before item after, items = before ++ item :: after ∧ MapsStrictlyAfter query aliasName before item

end Items

namespace AliasTree

def build (items : List TreeItem) : AliasTree := items.foldl add .nil

theorem build_snoc (items : List TreeItem) (item : TreeItem) :
    build (items ++ [item]) = (build items).add item := by
  simp [build]

theorem isSome_find_build (items : List TreeItem) (query : List Text) :
    ((build items).find query).isSome ↔ OnWay items query := by
  induction items using List.reverseRecOn with
  | nil => simp [build, OnWay]
  | append_singleton items item ih =>
    obtain ⟨-, -, found⟩ := (build items).add_spec item query
    rw [build_snoc, found, ih]
    simp only [OnWay, List.mem_append, List.mem_singleton]
    constructor
    · rintro (⟨some, other, member, loads, above⟩ | ⟨loads, some, above⟩)
      · exact ⟨some, other, .inl member, loads, above⟩
      · exact ⟨some, item, .inr rfl, loads, above⟩
    · rintro ⟨some, other, member | rfl, loads, above⟩
      · exact .inl ⟨some, other, member, loads, above⟩
      · exact .inr ⟨loads, some, above⟩

theorem mem_aliases_build (items : List TreeItem) (query : List Text) (aliasName : Text) :
    aliasName ∈ ((build items).listsAt query).aliases ↔ Maps items query aliasName := by
  induction items using List.reverseRecOn with
  | nil => simp [build, Maps, AliasLists.empty]
  | append_singleton items item ih =>
    obtain ⟨plain, -, -⟩ := (build items).add_spec item query
    rw [build_snoc, plain, ih]
    simp only [Maps, List.mem_append, List.mem_singleton]
    constructor
    · rintro (⟨other, member, maps⟩ | ⟨loads, notStrict, rfl, rfl⟩)
      · exact ⟨other, .inl member, maps⟩
      · exact ⟨item, .inr rfl, loads, notStrict, rfl, rfl⟩
    · rintro ⟨other, member | rfl, loads, notStrict, rfl, rfl⟩
      · exact .inl ⟨other, member, loads, notStrict, rfl, rfl⟩
      · exact .inr ⟨loads, notStrict, rfl, rfl⟩

theorem addsStrictly_build (items : List TreeItem) (item : TreeItem) (query : List Text)
    (aliasName : Text) :
    (item.loads = true ∧ (build items).AddsStrictly item query aliasName) ↔
      MapsStrictlyAfter query aliasName items item := by
  rw [MapsStrictlyAfter, AddsStrictly, Reaches, isSome_find_build]

theorem mapsStrictly_snoc (items : List TreeItem) (item : TreeItem) (query : List Text)
    (aliasName : Text) :
    MapsStrictly (items ++ [item]) query aliasName ↔
      MapsStrictly items query aliasName ∨ MapsStrictlyAfter query aliasName items item := by
  constructor
  · rintro ⟨before, other, after, split, maps⟩
    cases after using List.reverseRecOn with
    | nil =>
      obtain ⟨rfl, last⟩ := List.append_inj' split rfl
      obtain rfl := List.singleton_inj.mp last
      exact .inr maps
    | append_singleton after last =>
      have longer : items ++ [item] = (before ++ other :: after) ++ [last] := by simpa using split
      obtain ⟨rfl, -⟩ := List.append_inj' longer rfl
      exact .inl ⟨before, other, after, rfl, maps⟩
  · rintro (⟨before, other, after, rfl, maps⟩ | maps)
    · exact ⟨before, other, after ++ [item], by simp, maps⟩
    · exact ⟨items, item, [], rfl, maps⟩

theorem mem_strictAliases_build (items : List TreeItem) (query : List Text) (aliasName : Text) :
    aliasName ∈ ((build items).listsAt query).strictAliases ↔ MapsStrictly items query aliasName := by
  induction items using List.reverseRecOn with
  | nil => simp [build, MapsStrictly, AliasLists.empty]
  | append_singleton items item ih =>
    obtain ⟨-, strictly, -⟩ := (build items).add_spec item query
    rw [build_snoc, strictly, ih, addsStrictly_build, mapsStrictly_snoc]

theorem nodupLists_build (items : List TreeItem) : (build items).NodupLists := by
  induction items using List.reverseRecOn with
  | nil => exact fun query => by simp [build, AliasLists.empty]
  | append_singleton items item ih =>
    rw [build_snoc]
    exact ih.add item

theorem length_aliases_build (items : List TreeItem) (query : List Text) :
    ((build items).listsAt query).aliases.length = Set.ncard {aliasName | Maps items query aliasName} := by
  rw [← List.toFinset_card_of_nodup (nodupLists_build items query).1, ← Set.ncard_coe_finset]
  congr
  ext aliasName
  simp [mem_aliases_build]

theorem length_strictAliases_build (items : List TreeItem) (query : List Text) :
    ((build items).listsAt query).strictAliases.length =
      Set.ncard {aliasName | MapsStrictly items query aliasName} := by
  rw [← List.toFinset_card_of_nodup (nodupLists_build items query).2, ← Set.ncard_coe_finset]
  congr
  ext aliasName
  simp [mem_strictAliases_build]

end AliasTree

namespace AliasEntry

def extItem (entry : AliasEntry) : TreeItem :=
  ⟨entry.external, entry.internal, entry.bStrict, entry.externalFits, entry.internalFits⟩

def intItem (entry : AliasEntry) : TreeItem :=
  ⟨entry.internal, entry.external, entry.bStrict, entry.internalFits, entry.externalFits⟩

def loads (entry : AliasEntry) : Bool := entry.extItem.loads

-- An entry whose two names are the same is left out of the tree of the internal names.
def loadsBothWays (entry : AliasEntry) : Bool := entry.loads && entry.internal ≠ entry.external

theorem loads_intItem (entry : AliasEntry) : entry.intItem.loads = entry.loads := by
  simp only [loads, TreeItem.loads, extItem, intItem, TreeItem.path, TreeItem.aliasPath]
  rw [Bool.and_comm (AliasTree.validName entry.internal),
    Bool.and_comm ((tokens '.' entry.internal).head?.all _)]

end AliasEntry

namespace AliasManager

def extItems (table : List AliasEntry) : List TreeItem := table.map AliasEntry.extItem

def intItems (table : List AliasEntry) : List TreeItem :=
  (table.filter AliasEntry.loadsBothWays).map AliasEntry.intItem

theorem addItem_fst (tree : AliasTree) (item : TreeItem) :
    (tree.addItem item.name item.aliasName item.bStrict).1 = item.loads := by
  cases loads : item.loads with
  | false => rw [tree.addItem_refused loads]
  | true =>
    obtain ⟨token, rest, path⟩ := List.exists_cons_of_ne_nil (TreeItem.path_ne_nil loads)
    cases strict : item.bStrict with
    | true =>
      have added := tree.addItem_strict strict loads
      rw [strict] at added
      rw [added, path]
      rfl
    | false =>
      have added := tree.addItem_plain strict loads
      rw [strict] at added
      rw [added, path]
      rfl

theorem loadAliasInfo_eq (mgr : AliasManager) (entry : AliasEntry) :
    mgr.loadAliasInfo entry = ⟨mgr.extTree.add entry.extItem,
      if entry.loadsBothWays then mgr.intTree.add entry.intItem else mgr.intTree⟩ := by
  have accepted : (mgr.extTree.addItem entry.external entry.internal entry.bStrict).1 = entry.loads :=
    addItem_fst mgr.extTree entry.extItem
  have both : (entry.loads && decide (entry.internal ≠ entry.external)) = entry.loadsBothWays := rfl
  simp only [loadAliasInfo, accepted, both]
  cases entry.loadsBothWays <;> rfl

theorem loadMappingFile_eq (table : List AliasEntry) :
    loadMappingFile table = ⟨.build (extItems table), .build (intItems table)⟩ := by
  induction table using List.reverseRecOn with
  | nil => rfl
  | append_singleton table entry ih =>
    have last : loadMappingFile (table ++ [entry]) = (loadMappingFile table).loadAliasInfo entry := by
      simp [loadMappingFile]
    rw [last, ih, loadAliasInfo_eq]
    simp only [extItems, intItems, List.map_append, List.filter_append, List.map_cons, List.map_nil,
      AliasTree.build_snoc]
    cases both : entry.loadsBothWays <;> simp [both, AliasTree.build_snoc]

end AliasManager

end CcspCommon.AliasMgr
