import CcspCommon.AliasMgr.Answers
import Mathlib.Data.List.Pairwise

set_option autoImplicit false

namespace CcspCommon.AliasMgr

open CcspCommon.Shared
open CcspCommon.AnscPlatform (ushort)

inductive Instance
  | number (n : Nat) (positive : 0 < n) (small : n < 2 ^ 32)
  | named (name : Text) (undotted : '.' ∉ name)

namespace Instance

def text : Instance → Text
  | number n _ _ => decimal n
  | named name _ => '[' :: name ++ [']']

theorem isNameInsIdentifier_text (instance_ : Instance) : isNameInsIdentifier instance_.text = true := by
  cases instance_ with
  | number n positive small =>
    have head : (decimal n).head? ≠ some '0' := head_decimal_ne_zero positive
    have whole : (insNumber (decimal n)).toNat = n := by
      rw [insNumber, atoi_decimal, BitVec.ofInt_natCast, BitVec.toNat_ofNat, Nat.mod_eq_of_lt small]
    have nonzero : insNumber (decimal n) ≠ 0 := by
      intro zero
      rw [zero] at whole
      simp at whole
      omega
    rw [text, isNameInsIdentifier, if_neg head, if_neg nonzero, whole]
    exact decide_eq_true rfl
  | named name undotted =>
    have zero : insNumber ('[' :: name ++ [']']) = 0 := by
      simp [insNumber, atoi, isSpace, signedDigits, leadingDigits, Nat.ofDigitChars]
    have head : ('[' :: name ++ [']']).head? = some '[' := rfl
    have last : ('[' :: name ++ [']']).getLast? = some ']' := List.getLast?_concat
    rw [text, isNameInsIdentifier, head, if_neg (by decide), if_pos zero, last]
    decide

theorem isToken_text (instance_ : Instance) : IsToken '.' instance_.text := by
  cases instance_ with
  | number n positive small =>
    refine ⟨Nat.toDigits_ne_nil, fun dot => ?_⟩
    have digit : '.'.isDigit = true := Nat.isDigit_of_mem_toDigits (by decide) (by decide) dot
    exact absurd digit (by decide)
  | named name undotted => exact ⟨by simp [text], by simpa [text] using undotted⟩

end Instance

section Filling

variable {insIds : List Text} (identifiers : ∀ insId ∈ insIds, isNameInsIdentifier insId = true)

include identifiers

theorem map_childName_fill {list : List Text} (literal : ∀ token ∈ list, isNameInsIdentifier token = false)
    (count : list.count placeholder ≤ insIds.length) : (fill list insIds).map childName = list := by
  induction list generalizing insIds with
  | nil => rfl
  | cons token rest ih =>
    have plain : childName token = token := by simp [childName, literal token List.mem_cons_self]
    have later : ∀ token ∈ rest, isNameInsIdentifier token = false :=
      fun other member => literal other (List.mem_cons_of_mem token member)
    by_cases isPlaceholder : token = placeholder
    · rw [isPlaceholder, List.count_cons_self] at count
      cases insIds with
      | nil => simp at count
      | cons insId others =>
        have chosen : childName insId = placeholder := by
          simp [childName, identifiers insId List.mem_cons_self]
        have further := ih (fun other member => identifiers other (List.mem_cons_of_mem insId member)) later
          (by simpa using count)
        simp [fill, isPlaceholder, chosen, further]
    · rw [List.count_cons_of_ne isPlaceholder] at count
      have further := ih identifiers later count
      cases insIds with
      | nil => simpa [fill, plain] using further
      | cons insId others => simp [fill, isPlaceholder, plain, further]

theorem filter_fill {list : List Text} (literal : ∀ token ∈ list, isNameInsIdentifier token = false)
    (count : list.count placeholder = insIds.length) :
    (fill list insIds).filter isNameInsIdentifier = insIds := by
  induction list generalizing insIds with
  | nil =>
    have none : insIds = [] := List.length_eq_zero_iff.mp (by simpa using count.symm)
    simp [fill, none]
  | cons token rest ih =>
    have here : isNameInsIdentifier token = false := literal token List.mem_cons_self
    have later : ∀ token ∈ rest, isNameInsIdentifier token = false :=
      fun other member => literal other (List.mem_cons_of_mem token member)
    by_cases isPlaceholder : token = placeholder
    · rw [isPlaceholder, List.count_cons_self] at count
      cases insIds with
      | nil => simp at count
      | cons insId others =>
        have further := ih (fun other member => identifiers other (List.mem_cons_of_mem insId member)) later
          (by simpa using count)
        simp [fill, isPlaceholder, identifiers insId List.mem_cons_self, further]
    · rw [List.count_cons_of_ne isPlaceholder] at count
      have further := ih identifiers later count
      cases insIds with
      | nil => simpa [fill, here] using further
      | cons insId others => simp [fill, isPlaceholder, here, further]

end Filling

theorem fill_ne_nil {list insIds : List Text} (nonempty : list ≠ []) : fill list insIds ≠ [] := by
  cases list with
  | nil => exact absurd rfl nonempty
  | cons token rest =>
    cases insIds with
    | nil => simp
    | cons insId others =>
      rw [fill]
      split_ifs <;> simp

theorem isToken_fill {list insIds : List Text} (proper : ∀ token ∈ list, IsToken '.' token)
    (insIdsProper : ∀ insId ∈ insIds, IsToken '.' insId) : ∀ token ∈ fill list insIds, IsToken '.' token := by
  induction list generalizing insIds with
  | nil => simp [fill]
  | cons token rest ih =>
    obtain ⟨here, later⟩ := List.forall_mem_cons.mp proper
    cases insIds with
    | nil => simpa using proper
    | cons insId others =>
      obtain ⟨first, more⟩ := List.forall_mem_cons.mp insIdsProper
      rw [fill]
      split_ifs
      · exact List.forall_mem_cons.mpr ⟨first, ih later more⟩
      · exact List.forall_mem_cons.mpr ⟨here, ih later insIdsProper⟩

theorem firstHit_mapped (lists : List Text → AliasLists) (done list rest insIds : List Text) (nonempty : list ≠ [])
    (none : ∀ path, path <+: done ++ list.map childName → path ≠ done ++ list.map childName →
      stringSListIsEmpty (lists path).aliases)
    (some : ¬ stringSListIsEmpty (lists (done ++ list.map childName)).aliases) :
    firstHit lists done (list ++ rest) insIds = Option.some
      ⟨lists (done ++ list.map childName), insIds ++ list.filter isNameInsIdentifier, rest⟩ := by
  induction list generalizing done insIds with
  | nil => exact absurd rfl nonempty
  | cons token later ih =>
    have collected : (if isNameInsIdentifier token = true then insIds ++ [token] else insIds) ++
        later.filter isNameInsIdentifier = insIds ++ (token :: later).filter isNameInsIdentifier := by
      cases identifier : isNameInsIdentifier token <;> simp [identifier]
    rw [List.cons_append, firstHit]
    cases later with
    | nil =>
      rw [List.map_cons, List.map_nil] at some ⊢
      rw [if_pos (.inl some), ← collected]
      simp
    | cons next more =>
      have split : done ++ (token :: next :: more).map childName =
          done ++ [childName token] ++ (next :: more).map childName := by simp
      rw [split] at none some ⊢
      have stops : stringSListIsEmpty (lists (done ++ [childName token])).aliases := none _ (by simp) (by simp)
      have going : ¬ (¬ stringSListIsEmpty (lists (done ++ [childName token])).aliases ∨
          (next :: more ++ rest = [] ∧ ¬ stringSListIsEmpty (lists (done ++ [childName token])).strictAliases)) := by
        simp [stops]
      simp only [if_neg going]
      rw [ih _ _ (by simp) none some, collected]

section Spelling

def spell (list insIds suffix : List Text) (trailing : Bool) : Text :=
  joinTokens '.' (fill list insIds ++ suffix) ++ if trailing then ['.'] else []

theorem getLast?_joinTokens {list : List Text} (proper : ∀ token ∈ list, IsToken '.' token) :
    (joinTokens '.' list).getLast? ≠ some '.' := by
  induction list with
  | nil => simp [joinTokens]
  | cons token rest ih =>
    obtain ⟨⟨nonempty, undotted⟩, later⟩ := List.forall_mem_cons.mp proper
    cases rest with
    | nil => exact fun last => undotted (List.mem_of_getLast? last)
    | cons next more =>
      have some : joinTokens '.' (next :: more) ≠ [] := by simp [joinTokens_eq_nil later]
      rw [joinTokens, List.getLast?_append_of_ne_nil _ (by simp), List.getLast?_cons_of_ne_nil some]
      exact ih later

variable {list insIds suffix : List Text} (proper : ∀ token ∈ list, IsToken '.' token)
  (insIdsProper : ∀ insId ∈ insIds, IsToken '.' insId) (suffixProper : ∀ token ∈ suffix, IsToken '.' token)

include proper insIdsProper suffixProper

theorem isToken_fill_suffix : ∀ token ∈ fill list insIds ++ suffix, IsToken '.' token :=
  List.forall_mem_append.mpr ⟨isToken_fill proper insIdsProper, suffixProper⟩

theorem tokens_spell (trailing : Bool) :
    tokens '.' (spell list insIds suffix trailing) = fill list insIds ++ suffix :=
  tokens_joinTokens '.' (isToken_fill_suffix proper insIdsProper suffixProper) trailing

theorem getLast?_spell (trailing : Bool) :
    (spell list insIds suffix trailing).getLast? = some '.' ↔ trailing = true := by
  cases trailing with
  | true => simp [spell]
  | false =>
    have last := getLast?_joinTokens (isToken_fill_suffix proper insIdsProper suffixProper)
    simpa [spell] using last

theorem tokens_lead_spell (trailing : Bool) :
    tokens '.' (leadOf list insIds ++ spell list insIds suffix trailing) = fill list insIds ++ suffix := by
  rw [← tokens_spell proper insIdsProper suffixProper trailing, leadOf]
  split_ifs <;> rfl

theorem getLast?_lead_spell (trailing : Bool) :
    (leadOf list insIds ++ spell list insIds suffix trailing).getLast? = some '.' ↔ trailing = true := by
  rw [← getLast?_spell proper insIdsProper suffixProper trailing, leadOf]
  split_ifs with lead
  · have some : fill list insIds ≠ [] := by
      refine fill_ne_nil ?_
      rintro rfl
      simp at lead
    have printed : spell list insIds suffix trailing ≠ [] := by
      intro empty
      have none := tokens_spell proper insIdsProper suffixProper trailing
      rw [empty] at none
      exact some (List.append_eq_nil_iff.mp none.symm).1
    rw [List.getLast?_append_of_ne_nil _ printed]
  · rfl

end Spelling

theorem bind_head?_eq_some {names : Option (List Text)} {name : Text} (listed : name ∈ names.getD [])
    (only : ∀ other ∈ names.getD [], other = name) : names.bind List.head? = some name := by
  cases names with
  | none => cases listed
  | some list =>
    cases list with
    | nil => cases listed
    | cons first rest => simpa using only first (by simp)

def Alone (items : List TreeItem) (item : TreeItem) : Prop :=
  ∀ other ∈ items, other.loads = true → other.path <+: item.path ∨ item.path <+: other.path → other = item

section Instances

variable {items : List TreeItem} {item : TreeItem} (member : item ∈ items) (alone : Alone items item)
  (loads : item.loads = true) (plain : item.bStrict = false)

include member alone loads plain

theorem mem_aliases_alone (aliasName : Text) :
    aliasName ∈ ((AliasTree.build items).listsAt item.path).aliases ↔ aliasName = item.aliasName := by
  rw [AliasTree.mem_aliases_build]
  constructor
  · rintro ⟨other, present, accepted, -, same, rfl⟩
    rw [alone other present accepted (.inl (same ▸ List.prefix_rfl))]
  · rintro rfl
    exact ⟨item, member, loads, plain, rfl, rfl⟩

theorem aliases_alone : ((AliasTree.build items).listsAt item.path).aliases = [item.aliasName] := by
  refine List.perm_singleton.mp ((List.perm_ext_iff_of_nodup (AliasTree.nodupLists_build items item.path).1
    (List.nodup_singleton _)).mpr fun aliasName => ?_)
  rw [mem_aliases_alone member alone loads plain, List.mem_singleton]

omit member loads plain in
theorem aliases_above_alone {path : List Text} (above : path <+: item.path) (proper : path ≠ item.path) :
    stringSListIsEmpty ((AliasTree.build items).listsAt path).aliases := by
  have none : ((AliasTree.build items).listsAt path).aliases = [] := by
    refine List.eq_nil_iff_forall_not_mem.mpr fun aliasName mapped => proper ?_
    obtain ⟨other, present, accepted, -, rfl, -⟩ := (AliasTree.mem_aliases_build items path aliasName).mp mapped
    rw [alone other present accepted (.inl above)]
  rw [none]
  exact stringSListIsEmpty_nil

theorem findAliases_instance {insIds suffix : List Text} {trailing : Bool} {name : Text}
    (identifiers : ∀ insId ∈ insIds, isNameInsIdentifier insId = true)
    (literal : ∀ token ∈ item.path, isNameInsIdentifier token = false)
    (count : item.path.count placeholder = insIds.length)
    (aliasCount : item.aliasPath.count placeholder = insIds.length)
    (few : insIds.length < 65536) (short : name.length ≤ nameLength)
    (spelled : tokens '.' name = fill item.path insIds ++ suffix)
    (dotted : name.getLast? = some '.' ↔ trailing = true)
    (room : (leadOf item.aliasPath insIds ++ spell item.aliasPath insIds suffix trailing).length ≤ nameLength) :
    (findAliases (.build items) name).bind List.head? =
      some (leadOf item.aliasPath insIds ++ spell item.aliasPath insIds suffix trailing) := by
  have aliasNonempty : item.aliasPath ≠ [] := by
    simp only [TreeItem.loads, Bool.and_eq_true] at loads
    exact tokens_ne_nil loads.1.2
  have mapped := map_childName_fill identifiers literal count.le
  have answers := mem_aliases_alone member alone loads plain
  have listed := aliases_alone member alone loads plain
  have some : ¬ stringSListIsEmpty ((AliasTree.build items).listsAt item.path).aliases := by
    rw [listed]
    exact not_stringSListIsEmpty (by simp) (by simp)
  have stopped : firstHit (AliasTree.build items).listsAt [] (fill item.path insIds ++ suffix) [] =
      Option.some ⟨(AliasTree.build items).listsAt item.path, insIds, suffix⟩ := by
    have hit := firstHit_mapped (AliasTree.build items).listsAt [] (fill item.path insIds) suffix []
      (fill_ne_nil (TreeItem.path_ne_nil loads))
      (by simpa [mapped] using fun path above proper => aliases_above_alone alone above proper)
        (by simpa [mapped] using some)
    rwa [mapped, filter_fill identifiers literal count, List.nil_append, List.nil_append] at hit
  have split : spell item.aliasPath insIds suffix trailing =
      joinTokens '.' (fill item.aliasPath insIds) ++ remainingText suffix ++ if trailing then ['.'] else [] := by
    rw [spell, joinTokens_remainingText (fill_ne_nil aliasNonempty)]
  simp only [split, List.length_append] at room
  have replaced : replaceInstanceIds item.aliasName insIds =
      Option.some (leadOf item.aliasPath insIds ++ joinTokens '.' (fill item.aliasPath insIds)) := by
    refine replaceInstanceIds_filled item.aliasFits ?_ ?_
    · by_cases nothing : insIds = []
      · exact .inl ⟨nothing, nothing⟩
      · refine .inr ⟨?_, aliasCount.le⟩
        rw [isQueueEmpty, ushort, Nat.mod_eq_of_lt few, List.length_eq_zero_iff]
        exact nothing
    · change (leadOf item.aliasPath insIds).length + (joinTokens '.' (fill item.aliasPath insIds)).length ≤ _
      omega
  have left : appendRemaining [] suffix = Option.some (remainingText suffix) := by
    simpa using appendRemaining_eq suffix (by simp only [List.nil_append]; omega : ([] ++ _).length ≤ _)
  have ends : (decide (name.getLast? = Option.some '.')) = trailing := by
    cases trailing <;> simp [dotted]
  rw [findAliases_eq, tcAllocate_of_fits short, spelled, Option.bind_some, stopped, Option.bind_some, namesOf,
    left, Option.bind_some, ends, Found.aliasList, if_pos some, if_neg some, split]
  refine bind_head?_eq_some ?_ ?_
  · rw [mem_collectNames]
    refine ⟨?_, .inr ⟨item.aliasName, (answers _).mpr rfl, _, replaced, by simp⟩⟩
    intro aliasName present result found
    rw [(answers aliasName).mp present, replaced, Option.some_inj] at found
    rw [← found, List.length_append]
    omega
  · intro other listed
    rw [mem_collectNames] at listed
    obtain ⟨-, old | ⟨aliasName, present, result, found, rfl⟩⟩ := listed
    · cases old
    · rw [(answers aliasName).mp present, replaced, Option.some_inj] at found
      rw [← found]
      simp

end Instances

section Tables

/-- Neither name is above the other. For accepted names this holds as soon as neither text is a
prefix of the other. -/
def Apart (first second : Text) : Prop :=
  ¬ tokens '.' first <+: tokens '.' second ∧ ¬ tokens '.' second <+: tokens '.' first

theorem Apart.symm {first second : Text} (apart : Apart first second) : Apart second first :=
  ⟨apart.2, apart.1⟩

def AliasEntry.Apart (first second : AliasEntry) : Prop :=
  AliasMgr.Apart first.external second.external ∧ AliasMgr.Apart first.internal second.internal

instance : Std.Symm AliasEntry.Apart where
  symm _ _ apart := ⟨apart.1.symm, apart.2.symm⟩

def PairwiseApart (table : List AliasEntry) : Prop :=
  (table.filter AliasEntry.loads).Pairwise AliasEntry.Apart

theorem PairwiseApart.eq_of_comparable {table : List AliasEntry} (apart : PairwiseApart table)
    {first second : AliasEntry} (member : first ∈ table) (also : second ∈ table) (loads : first.loads = true)
    (alsoLoads : second.loads = true) (comparable : ¬ first.Apart second) : first = second := by
  by_contra differ
  exact comparable (List.Pairwise.forall apart (List.mem_filter.mpr ⟨member, loads⟩)
    (List.mem_filter.mpr ⟨also, alsoLoads⟩) differ)

variable {table : List AliasEntry} (apart : PairwiseApart table) {entry : AliasEntry} (member : entry ∈ table)
  (loads : entry.loads = true)

include apart member loads

theorem alone_extItems : Alone (AliasManager.extItems table) entry.extItem := by
  intro item present accepted comparable
  obtain ⟨other, listed, rfl⟩ := List.mem_map.mp present
  rw [apart.eq_of_comparable listed member accepted loads]
  rcases comparable with above | below
  · exact fun far => far.1.1 above
  · exact fun far => far.1.2 below

theorem alone_intItems : Alone (AliasManager.intItems table) entry.intItem := by
  intro item present accepted comparable
  obtain ⟨other, listed, rfl⟩ := List.mem_map.mp present
  rw [AliasEntry.loads_intItem] at accepted
  rw [apart.eq_of_comparable (List.mem_of_mem_filter listed) member accepted loads]
  rcases comparable with above | below
  · exact fun far => far.2.1 above
  · exact fun far => far.2.2 below

end Tables

structure AliasEntry.Reversible (entry : AliasEntry) : Prop where
  loads : entry.loads = true
  plain : entry.bStrict = false
  differ : entry.internal ≠ entry.external
  externalLiteral : ∀ token ∈ tokens '.' entry.external, isNameInsIdentifier token = false
  internalLiteral : ∀ token ∈ tokens '.' entry.internal, isNameInsIdentifier token = false
  start : (tokens '.' entry.external).head? ≠ some placeholder

def AliasEntry.Takes (entry : AliasEntry) (instances : List Instance) : Prop :=
  (tokens '.' entry.external).count placeholder = instances.length ∧
    (tokens '.' entry.internal).count placeholder = instances.length

def AliasManager.RoundTrips (mgr : AliasManager) (name : Text) : Prop :=
  (mgr.getFirstInternalName name).bind mgr.getExternalName = some name

def instanceName (pattern : Text) (instances : List Instance) (suffix : List Text) (trailing : Bool) : Text :=
  spell (tokens '.' pattern) (instances.map Instance.text) suffix trailing

end CcspCommon.AliasMgr
