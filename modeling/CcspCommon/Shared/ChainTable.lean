import Mathlib.Algebra.BigOperators.Group.Finset.Basic
import Mathlib.Data.Multiset.AddSub
import Mathlib.Algebra.Order.Group.Multiset
import Mathlib.Data.Fintype.BigOperators
import Mathlib.Data.List.Find
import Mathlib.Tactic.Common

set_option autoImplicit false

namespace CcspCommon.Shared

variable {K V : Type} {size : Nat}

structure ChainTable (hash : K → Fin size) (key : V → K) where
  chain : Fin size → List V
  placed : ∀ i, ∀ value ∈ chain i, hash (key value) = i

namespace ChainTable

variable {hash : K → Fin size} {key : V → K}

def empty : ChainTable hash key where
  chain _ := []
  placed := by simp

def push (table : ChainTable hash key) (value : V) : ChainTable hash key where
  chain := Function.update table.chain (hash (key value))
    (value :: table.chain (hash (key value)))
  placed := by
    intro i other member
    by_cases same : i = hash (key value)
    · subst same
      rw [Function.update_self, List.mem_cons] at member
      rcases member with rfl | member
      · rfl
      · exact table.placed _ other member
    · rw [Function.update_of_ne same] at member
      exact table.placed i other member

variable [DecidableEq K]

def find? (table : ChainTable hash key) (k : K) : Option V :=
  (table.chain (hash k)).find? fun value => key value = k

def remove (table : ChainTable hash key) (k : K) : ChainTable hash key where
  chain := Function.update table.chain (hash k)
    ((table.chain (hash k)).eraseP fun value => key value = k)
  placed := by
    intro i other member
    by_cases same : i = hash k
    · subst same
      rw [Function.update_self] at member
      exact table.placed _ other (List.mem_of_mem_eraseP member)
    · rw [Function.update_of_ne same] at member
      exact table.placed i other member

def entries (table : ChainTable hash key) : Multiset V :=
  ∑ i, (table.chain i : Multiset V)

omit [DecidableEq K] in
theorem mem_entries (table : ChainTable hash key) (value : V) :
    value ∈ table.entries ↔ value ∈ table.chain (hash (key value)) := by
  simp only [entries, Multiset.mem_sum, Finset.mem_univ, true_and, Multiset.mem_coe]
  constructor
  · rintro ⟨i, member⟩
    rwa [table.placed i value member]
  · intro member
    exact ⟨_, member⟩

omit [DecidableEq K] in
@[simp] theorem entries_empty : (empty : ChainTable hash key).entries = 0 := by
  simp [entries, empty]

omit [DecidableEq K] in
theorem entries_split (table : ChainTable hash key) (i : Fin size) :
    table.entries = table.chain i + ∑ j ∈ Finset.univ.erase i, (table.chain j : Multiset V) :=
  (Finset.add_sum_erase Finset.univ _ (Finset.mem_univ i)).symm

omit [DecidableEq K] in
theorem entries_update (table updated : ChainTable hash key) (i : Fin size) (values : List V)
    (changed : updated.chain = Function.update table.chain i values) :
    updated.entries = values + ∑ j ∈ Finset.univ.erase i, (table.chain j : Multiset V) := by
  rw [entries_split updated i, changed, Function.update_self]
  congr 1
  refine Finset.sum_congr rfl fun j member => ?_
  rw [Function.update_of_ne (Finset.ne_of_mem_erase member)]

omit [DecidableEq K] in
@[simp] theorem entries_push (table : ChainTable hash key) (value : V) :
    (table.push value).entries = value ::ₘ table.entries := by
  rw [entries_update table (table.push value) _ _ rfl, entries_split table (hash (key value)),
    ← Multiset.cons_coe, Multiset.cons_add]

theorem find?_some (table : ChainTable hash key) {k : K} {value : V}
    (found : table.find? k = some value) : value ∈ table.entries ∧ key value = k := by
  have same : key value = k := by simpa using List.find?_some found
  refine ⟨(table.mem_entries value).mpr ?_, same⟩
  rw [same]
  exact List.mem_of_find?_eq_some found

theorem find?_none (table : ChainTable hash key) {k : K} :
    table.find? k = none ↔ ∀ value ∈ table.entries, key value ≠ k := by
  simp only [find?, List.find?_eq_none, decide_eq_true_eq, mem_entries]
  constructor
  · intro absent value member same
    exact absent value (same ▸ member) same
  · intro absent value member same
    exact absent value (same.symm ▸ member) same

theorem entries_remove (table : ChainTable hash key) {k : K} {value : V}
    (found : table.find? k = some value) :
    value ::ₘ (table.remove k).entries = table.entries := by
  have chainSplit : (value :: (table.chain (hash k)).eraseP fun other => key other = k).Perm
      (table.chain (hash k)) := by
    have position := List.find?_eq_some_iff_append.mp found
    obtain ⟨same, before, after, split, absent⟩ := position
    have erased : (before ++ value :: after).eraseP (fun other => key other = k) =
        before ++ after := by
      rw [List.eraseP_append_right _ (by simpa using absent),
        List.eraseP_cons_of_pos (p := fun other => decide (key other = k)) same]
    rw [split, erased]
    exact List.perm_middle.symm
  rw [entries_update table (table.remove k) _ _ rfl, entries_split table (hash k),
    ← Multiset.cons_add, Multiset.cons_coe, Multiset.coe_eq_coe.mpr chainSplit]

theorem entries_remove_absent (table : ChainTable hash key) {k : K}
    (absent : table.find? k = none) : (table.remove k).entries = table.entries := by
  have unchanged : (table.chain (hash k)).eraseP (fun other => key other = k) =
      table.chain (hash k) :=
    List.eraseP_of_forall_not (by simpa [find?, List.find?_eq_none] using absent)
  rw [entries_update table (table.remove k) _ _ rfl, unchanged, ← entries_split]

theorem mem_remove_of_ne (table : ChainTable hash key) {k : K} {value : V} (other : key value ≠ k) :
    value ∈ (table.remove k).entries ↔ value ∈ table.entries := by
  cases found : table.find? k with
  | none => rw [entries_remove_absent table found]
  | some first =>
    have different : value ≠ first := by
      rintro rfl
      exact other (table.find?_some found).2
    rw [← entries_remove table found, Multiset.mem_cons, or_iff_right different]

-- unfolding the sum over a table of concrete size is never wanted
attribute [irreducible] entries

end ChainTable

section Newest

def Chained (place : V → Fin size) (values : List V) (chain : Fin size → List V) : Prop :=
  ∀ i, chain i = values.filter fun value => place value = i

variable {place : V → Fin size} {values : List V} {chain : Fin size → List V}

theorem chained_empty : Chained place [] fun _ => [] := fun _ => rfl

theorem Chained.push (chained : Chained place values chain) {value : V} {index : Fin size}
    (placed : place value = index) :
    Chained place (value :: values) (Function.update chain index (value :: chain index)) := by
  intro i
  by_cases same : i = index
  next =>
    subst same
    rw [Function.update_self, chained, List.filter_cons, decide_eq_true placed, if_pos rfl]
  next =>
    rw [Function.update_of_ne same, chained,
      List.filter_cons_of_neg (by simpa using fun found => same (found.symm.trans placed))]

theorem Chained.find? (chained : Chained place values chain) {i : Fin size} {test : V → Bool}
    (together : ∀ value ∈ values, test value = true → place value = i) :
    (chain i).find? test = values.find? test := by
  rw [chained, List.find?_filter]
  refine List.find?_congr fun value member => ?_
  by_cases met : test value = true
  next => simp [met, together value member met]
  next => simp [met]

end Newest

end CcspCommon.Shared
