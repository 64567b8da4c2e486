import Mathlib.Data.List.Nodup

set_option autoImplicit false

namespace CcspCommon.Shared

section Forest

variable {A B : Type}

inductive Forest (A : Type)
  | nil
  | cons (root : A) (below next : Forest A)
  deriving DecidableEq, Repr

namespace Forest

def roots : Forest A → List A
  | nil => []
  | cons root _ next => root :: next.roots

def labels : Forest A → List A
  | nil => []
  | cons root below next => root :: (below.labels ++ next.labels)

def find (wanted : A → Bool) : Forest A → Option (A × Forest A)
  | nil => none
  | cons root below next => if wanted root then some (root, below) else next.find wanted

def erase (wanted : A → Bool) : Forest A → Forest A
  | nil => nil
  | cons root below next => if wanted root then next else cons root below (next.erase wanted)

-- `Within forest ancestors root below`: a tree of the forest, with the labels above it from the top down.
inductive Within : Forest A → List A → A → Forest A → Prop
  | here (root : A) (below next : Forest A) : Within (cons root below next) [] root below
  | down {root : A} {below next : Forest A} {ancestors : List A} {inner : A} {deeper : Forest A}
      (within : Within below ancestors inner deeper) :
      Within (cons root below next) (root :: ancestors) inner deeper
  | after {root : A} {below next : Forest A} {ancestors : List A} {inner : A} {deeper : Forest A}
      (within : Within next ancestors inner deeper) :
      Within (cons root below next) ancestors inner deeper

@[simp] theorem roots_nil : (nil : Forest A).roots = [] := rfl

@[simp] theorem roots_cons (root : A) (below next : Forest A) :
    (cons root below next).roots = root :: next.roots := rfl

@[simp] theorem labels_nil : (nil : Forest A).labels = [] := rfl

@[simp] theorem labels_cons (root : A) (below next : Forest A) :
    (cons root below next).labels = root :: (below.labels ++ next.labels) := rfl

theorem roots_subset_labels {forest : Forest A} {root : A} (member : root ∈ forest.roots) :
    root ∈ forest.labels := by
  induction forest with
  | nil => cases member
  | cons first below next _ ih =>
    rcases List.mem_cons.mp member with rfl | later
    · exact List.mem_cons_self
    · exact List.mem_cons_of_mem first (List.mem_append_right below.labels (ih later))

theorem find_within {wanted : A → Bool} {forest : Forest A} {root : A} {below : Forest A}
    (found : forest.find wanted = some (root, below)) :
    wanted root = true ∧ Within forest [] root below := by
  induction forest with
  | nil => cases found
  | cons first under next _ ih =>
    simp only [find] at found
    split_ifs at found with this
    · cases found
      exact ⟨this, .here root below next⟩
    · obtain ⟨right, within⟩ := ih found
      exact ⟨right, within.after⟩

theorem find_eq_none {wanted : A → Bool} {forest : Forest A} :
    forest.find wanted = none ↔ ∀ root ∈ forest.roots, wanted root = false := by
  induction forest with
  | nil => simp [find]
  | cons first under next _ ih =>
    simp only [find, roots_cons, List.forall_mem_cons]
    split_ifs with this
    · simp [this]
    · simp [this, ih]

theorem roots_erase (wanted : A → Bool) (forest : Forest A) :
    (forest.erase wanted).roots = forest.roots.eraseP wanted := by
  induction forest with
  | nil => rfl
  | cons first under next _ ih =>
    simp only [erase, roots_cons, List.eraseP_cons]
    split_ifs with this
    · simp [this]
    · simp [this, ih]

theorem labels_erase {wanted : A → Bool} {forest : Forest A} {root : A} {below : Forest A}
    (found : forest.find wanted = some (root, below)) :
    forest.labels.Perm (root :: (below.labels ++ (forest.erase wanted).labels)) := by
  induction forest with
  | nil => cases found
  | cons first under next _ ih =>
    simp only [find] at found
    simp only [erase, labels_cons]
    split_ifs at found ⊢ with this
    · cases found
      exact .refl _
    · have later := ih found
      calc first :: (under.labels ++ next.labels)
        _ |>.Perm (first :: (under.labels ++ root :: (below.labels ++ (next.erase wanted).labels))) :=
          (later.append_left _).cons _
        _ |>.Perm (root :: (first :: under.labels ++ (below.labels ++ (next.erase wanted).labels))) :=
          @List.perm_middle A root (first :: under.labels) _
        _ |>.Perm (root :: (below.labels ++ (first :: under.labels ++ (next.erase wanted).labels))) :=
          (List.perm_append_comm_assoc _ _ _).cons root

theorem Within.mem_labels {forest below : Forest A} {ancestors : List A} {root : A}
    (within : Within forest ancestors root below) : root ∈ forest.labels := by
  induction within with
  | here => exact List.mem_cons_self
  | down _ ih => exact List.mem_cons_of_mem _ (List.mem_append_left _ ih)
  | after _ ih => exact List.mem_cons_of_mem _ (List.mem_append_right _ ih)

theorem Within.labels_subset {forest below : Forest A} {ancestors : List A} {root : A}
    (within : Within forest ancestors root below) : below.labels ⊆ forest.labels := by
  induction within with
  | here => exact fun _ member => List.mem_cons_of_mem _ (List.mem_append_left _ member)
  | down _ ih => exact fun _ member => List.mem_cons_of_mem _ (List.mem_append_left _ (ih member))
  | after _ ih => exact fun _ member => List.mem_cons_of_mem _ (List.mem_append_right _ (ih member))

theorem Within.trans {forest below deeper : Forest A} {ancestors others : List A} {root inner : A}
    (outer : Within forest ancestors root below) (within : Within below others inner deeper) :
    Within forest (ancestors ++ root :: others) inner deeper := by
  induction outer with
  | here root below next => exact .down within
  | down _ ih => exact (ih within).down
  | after _ ih => exact (ih within).after

theorem Within.inside {forest below deeper : Forest A} {ancestors others : List A} {root inner : A}
    (outer : Within forest ancestors root below)
    (within : Within (cons root below nil) others inner deeper) :
    Within forest (ancestors ++ others) inner deeper := by
  cases within with
  | here => simpa using outer
  | down deep => exact outer.trans deep
  | after absent => cases absent

theorem Within.labels_subset_below {root inner : A} {below deeper : Forest A} {ancestors : List A}
    (within : Within (cons root below nil) ancestors inner deeper) : deeper.labels ⊆ below.labels := by
  cases within with
  | here => exact List.Subset.refl _
  | down deep => exact deep.labels_subset
  | after absent => cases absent

theorem distinct_cons {key : A → B} {root : A} {below next : Forest A} :
    ((cons root below next).labels.map key).Nodup ↔
      ((∀ label ∈ below.labels, key label ≠ key root) ∧ ∀ label ∈ next.labels, key label ≠ key root) ∧
        (below.labels.map key).Nodup ∧ (next.labels.map key).Nodup ∧
          ∀ label ∈ below.labels, ∀ other ∈ next.labels, key label ≠ key other := by
  simp only [labels_cons, List.map_cons, List.map_append, List.nodup_cons, List.nodup_append,
    List.mem_append, List.mem_map]
  grind

theorem Within.unique {key : A → B} {forest : Forest A} (distinct : (forest.labels.map key).Nodup)
    {ancestors others : List A} {root inner : A} {below deeper : Forest A}
    (one : Within forest ancestors root below) (two : Within forest others inner deeper)
    (same : key root = key inner) : ancestors = others ∧ root = inner ∧ below = deeper := by
  induction one generalizing others with
  | here root below next =>
    obtain ⟨⟨fresh, freshNext⟩, _⟩ := distinct_cons.mp distinct
    cases two with
    | here => exact ⟨rfl, rfl, rfl⟩
    | down within => exact absurd same.symm (fresh inner within.mem_labels)
    | after within => exact absurd same.symm (freshNext inner within.mem_labels)
  | down within ih =>
    obtain ⟨⟨fresh, _⟩, distinctBelow, _, apart⟩ := distinct_cons.mp distinct
    cases two with
    | here => exact absurd same (fresh _ within.mem_labels)
    | down other =>
      obtain ⟨rfl, rfl, rfl⟩ := ih distinctBelow other same
      exact ⟨rfl, rfl, rfl⟩
    | after other => exact absurd same (apart _ within.mem_labels _ other.mem_labels)
  | after within ih =>
    obtain ⟨⟨_, freshNext⟩, _, distinctNext, apart⟩ := distinct_cons.mp distinct
    cases two with
    | here => exact absurd same (freshNext _ within.mem_labels)
    | down other => exact absurd same.symm (apart _ other.mem_labels _ within.mem_labels)
    | after other => exact ih distinctNext other same

end Forest

end Forest

end CcspCommon.Shared
