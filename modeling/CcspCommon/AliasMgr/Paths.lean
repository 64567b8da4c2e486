import CcspCommon.AliasMgr.AliasTree

set_option autoImplicit false

namespace CcspCommon.AliasMgr

open CcspCommon.Shared

namespace AliasTree

def listsAt (tree : AliasTree) (path : List Text) : AliasLists := (tree.find path).getD .empty

def childrenOf (tree : AliasTree) (name : Text) : AliasTree := ((tree.findChild name).map Prod.snd).getD nil

@[simp] theorem find_nil_path (tree : AliasTree) : tree.find [] = none := by
  cases tree <;> rfl

@[simp] theorem find_nil (path : List Text) : nil.find path = none := by
  match path with
  | [] => rfl
  | [_] => rfl
  | _ :: _ :: _ => rfl

theorem find_cons_cons (tree : AliasTree) (name next : Text) (rest : List Text) :
    tree.find (name :: next :: rest) = (tree.childrenOf name).find (next :: rest) := by
  unfold childrenOf
  rw [find]
  cases tree.findChild name with
  | none => simp
  | some found => rfl

theorem find_singleton (tree : AliasTree) (name : Text) :
    tree.find [name] = (tree.findChild name).map Prod.fst := rfl

theorem listsAt_cons_cons (tree : AliasTree) (name next : Text) (rest : List Text) :
    tree.listsAt (name :: next :: rest) = (tree.childrenOf name).listsAt (next :: rest) := by
  rw [listsAt, find_cons_cons, listsAt]

@[simp] theorem listsAt_nil (path : List Text) : nil.listsAt path = .empty := by
  simp [listsAt]

theorem attach_nil (change : AliasLists → AliasLists) (name : Text) (rest : List Text) :
    nil.attach change name rest = chain change name rest := by
  cases rest <;> rfl

theorem findChild_attach (change : AliasLists → AliasLists) (name other : Text) (rest : List Text)
    (tree : AliasTree) :
    (tree.attach change name rest).findChild other =
      if other = name then
        some (match rest with
          | [] => (change (tree.listsAt [name]), tree.childrenOf name)
          | next :: more => (tree.listsAt [name], (tree.childrenOf name).attach change next more))
      else tree.findChild other := by
  induction tree with
  | nil =>
    rw [attach_nil]
    cases rest with
    | nil => by_cases same : name = other <;> simp [chain, findChild, childrenOf, same, eq_comm]
    | cons next more =>
      by_cases same : name = other <;> simp [chain, findChild, childrenOf, attach_nil, same, eq_comm]
  | node label lists child sibling _ ih =>
    by_cases here : label = name
    · subst here
      by_cases same : label = other
      · subst same
        cases rest <;> simp [attach, findChild, childrenOf, listsAt, find]
      · cases rest <;> simp [attach, findChild, same, Ne.symm same]
    · by_cases same : label = other
      · subst same
        simp [attach, findChild, here]
      · simp only [attach, findChild, here, same, if_false, ih]
        simp [childrenOf, listsAt, find, findChild, here]

theorem childrenOf_attach (change : AliasLists → AliasLists) (name other : Text) (rest : List Text)
    (tree : AliasTree) :
    (tree.attach change name rest).childrenOf other =
      match rest with
      | [] => tree.childrenOf other
      | next :: more =>
        if other = name then (tree.childrenOf name).attach change next more else tree.childrenOf other := by
  rw [childrenOf, findChild_attach]
  by_cases same : other = name
  · subst same
    cases rest <;> simp
  · cases rest <;> simp [same, childrenOf]

theorem find_attach (change : AliasLists → AliasLists) (name : Text) (rest query : List Text)
    (tree : AliasTree) :
    (tree.attach change name rest).find query =
      if query = name :: rest then some (change (tree.listsAt query))
      else if query ≠ [] ∧ query <+: name :: rest then some (tree.listsAt query)
      else tree.find query := by
  induction query generalizing name rest tree with
  | nil => simp
  | cons first later ih =>
    cases later with
    | nil =>
      rw [find_singleton, findChild_attach]
      by_cases same : first = name
      · subst same
        cases rest <;> simp
      · simp [same, find_singleton]
    | cons second last =>
      rw [find_cons_cons, childrenOf_attach]
      cases rest with
      | nil =>
        simp [find_cons_cons]
      | cons next more =>
        by_cases same : first = name
        · subst same
          simp only [if_true]
          rw [ih, listsAt_cons_cons, find_cons_cons]
          simp [List.cons_prefix_cons]
        · simp [same, find_cons_cons]

theorem listsAt_attach (change : AliasLists → AliasLists) (name : Text) (rest query : List Text)
    (tree : AliasTree) :
    (tree.attach change name rest).listsAt query =
      if query = name :: rest then change (tree.listsAt query) else tree.listsAt query := by
  rw [listsAt, find_attach]
  split_ifs <;> rfl

theorem isSome_find_attach (change : AliasLists → AliasLists) (name : Text) (rest query : List Text)
    (tree : AliasTree) :
    ((tree.attach change name rest).find query).isSome ↔
      (tree.find query).isSome ∨ (query ≠ [] ∧ query <+: name :: rest) := by
  rw [find_attach]
  by_cases whole : query = name :: rest
  · subst whole
    simp
  · by_cases above : query ≠ [] ∧ query <+: name :: rest <;> simp [whole, above]

end AliasTree

section Lookups

def firstHit (lists : List Text → AliasLists) : List Text → List Text → List Text → Option Found
  | _, [], _ => none
  | done, token :: rest, insIds =>
    let here := done ++ [childName token]
    let insIds := if isNameInsIdentifier token then insIds ++ [token] else insIds
    if ¬ stringSListIsEmpty (lists here).aliases ∨
        (rest = [] ∧ ¬ stringSListIsEmpty (lists here).strictAliases) then
      some ⟨lists here, insIds, rest⟩
    else firstHit lists here rest insIds

theorem lookupAliasNode_nil (nameTokens insIds : List Text) :
    lookupAliasNode nameTokens insIds .nil = none := by
  cases nameTokens <;> rfl

theorem lookupAliasNode_below {lists : List Text → AliasLists} (nameTokens : List Text)
    {done insIds : List Text} {tree : AliasTree}
    (same : ∀ path, path ≠ [] → lists (done ++ path) = tree.listsAt path) :
    lookupAliasNode nameTokens insIds tree = firstHit lists done nameTokens insIds := by
  induction nameTokens generalizing done insIds tree with
  | nil => rfl
  | cons token rest ih =>
    have here : lists (done ++ [childName token]) = tree.listsAt [childName token] := same _ (by simp)
    -- below the child the paths are those of its subtree
    have deeper : ∀ path, path ≠ [] → lists (done ++ [childName token] ++ path) =
        (tree.childrenOf (childName token)).listsAt path := by
      intro path nonempty
      cases path with
      | nil => exact absurd rfl nonempty
      | cons next more =>
        rw [List.append_assoc, same _ (by simp)]
        exact tree.listsAt_cons_cons (childName token) next more
    simp only [lookupAliasNode, firstHit]
    cases child : tree.findChild (childName token) with
    | none =>
      have absent : tree.listsAt [childName token] = .empty := by
        simp [AliasTree.listsAt, AliasTree.find_singleton, child]
      have none : tree.childrenOf (childName token) = .nil := by simp [AliasTree.childrenOf, child]
      rw [none] at deeper
      rw [here, absent, ← ih deeper, lookupAliasNode_nil]
      simp [AliasLists.empty]
    | some found =>
      obtain ⟨found, children⟩ := found
      have present : tree.listsAt [childName token] = found := by
        simp [AliasTree.listsAt, AliasTree.find_singleton, child]
      have some : tree.childrenOf (childName token) = children := by simp [AliasTree.childrenOf, child]
      rw [some] at deeper
      rw [here, present]
      by_cases stops : ¬ stringSListIsEmpty found.aliases ∨
          (rest = [] ∧ ¬ stringSListIsEmpty found.strictAliases)
      · simp only [if_pos stops]
      · simp only [if_neg stops]
        exact ih deeper

theorem lookupAliasNode_eq (tree : AliasTree) (nameTokens : List Text) :
    lookupAliasNode nameTokens [] tree = firstHit tree.listsAt [] nameTokens [] :=
  lookupAliasNode_below nameTokens fun _ _ => rfl

def LeavesRoom (insIds : List Text) (remaining : Text) (list : List Text) : Prop :=
  ∀ aliasName ∈ list, ∀ result, replaceInstanceIds aliasName insIds = some result →
    remaining = [] ∨ result.length + remaining.length ≤ nameLength

theorem mem_collectNames (insIds : List Text) (remaining : Text) (isPartialName : Bool)
    (list names : List Text) (name : Text) :
    name ∈ (collectNames insIds remaining isPartialName list names).getD [] ↔
      LeavesRoom insIds remaining list ∧ (name ∈ names ∨ ∃ aliasName ∈ list, ∃ result,
        replaceInstanceIds aliasName insIds = some result ∧
        name = result ++ remaining ++ if isPartialName then ['.'] else []) := by
  induction list generalizing names with
  | nil => simp [collectNames, LeavesRoom]
  | cons aliasName rest ih =>
    simp only [collectNames]
    cases replaced : replaceInstanceIds aliasName insIds with
    | none =>
      rw [ih]
      simp [LeavesRoom, replaced]
    | some result =>
      by_cases long : remaining ≠ [] ∧ result.length + remaining.length > nameLength
      · have cut : ¬ LeavesRoom insIds remaining (aliasName :: rest) := by
          intro room
          rcases room aliasName List.mem_cons_self result replaced with empty | short
          · exact long.1 empty
          · omega
        simp [long, cut]
      · have fits : remaining = [] ∨ result.length + remaining.length ≤ nameLength := by
          by_cases empty : remaining = []
          · exact .inl empty
          · exact .inr (by simpa [empty] using long)
        dsimp only
        rw [if_neg long, ih]
        have room : LeavesRoom insIds remaining (aliasName :: rest) ↔ LeavesRoom insIds remaining rest := by
          simp [LeavesRoom, replaced, fits]
        rw [room]
        simp [replaced, or_assoc, or_left_comm]

end Lookups

end CcspCommon.AliasMgr
