import CcspCommon.AliasMgr.Paths

set_option autoImplicit false

namespace CcspCommon.AliasMgr

open CcspCommon.Shared
open CcspCommon.AnscPlatform (tcAllocate uriPathSize)

structure TreeItem where
  name : Text
  aliasName : Text
  bStrict : Bool
  nameFits : name.length ≤ nameLength
  aliasFits : aliasName.length ≤ nameLength

def sharedPrefix : List Text → List Text → List Text
  | token :: rest, other :: others => if token = other then token :: sharedPrefix rest others else []
  | _, _ => []

def strictPairs (name : Text) : List Text → List Text → List Text → List Text → List (List Text × Text)
  | done, aliasDone, token :: rest, other :: others =>
    let later := strictPairs name (done ++ [token]) (aliasDone ++ [other]) rest others
    if joinTokens '.' (done ++ [token]) ≠ name then
      (done ++ [token], joinTokens '.' (aliasDone ++ [other])) :: later
    else later
  | _, _, _, _ => []

def auxiliaryFrom (name : Text) : List Text → List Text → List Text → List (List Text × Text)
  | done, token :: rest, other :: others =>
    if token = other then auxiliaryFrom name (done ++ [token]) rest others
    else strictPairs name done done (token :: rest) (other :: others)
  | _, _, _ => []

namespace TreeItem

def path (item : TreeItem) : List Text := tokens '.' item.name

def aliasPath (item : TreeItem) : List Text := tokens '.' item.aliasName

def shared (item : TreeItem) : List Text := sharedPrefix item.path item.aliasPath

def auxiliary (item : TreeItem) : List (List Text × Text) :=
  auxiliaryFrom item.name [] item.path item.aliasPath

def loads (item : TreeItem) : Bool :=
  AliasTree.validName item.name && AliasTree.validName item.aliasName &&
    (item.bStrict || (item.path.head?.all (·.length < nameLength) &&
      item.aliasPath.head?.all (·.length < nameLength)))

end TreeItem

section Names

theorem tcAllocate_of_fits {name : Text} (fits : name.length ≤ nameLength) :
    tcAllocate '.' name = some (tokens '.' name) := by
  have short : (tokens '.' name).all (·.length < uriPathSize) = true := by
    simp only [List.all_eq_true, decide_eq_true_eq]
    intro token member
    have whole := length_le_joinTokens '.' member
    have text := length_joinTokens_tokens '.' name
    simp only [nameLength] at fits
    simp only [uriPathSize]
    omega
  simp [tcAllocate, short]

theorem joinTokens_eq_nil {list : List Text} (proper : ∀ token ∈ list, IsToken '.' token) :
    joinTokens '.' list = [] ↔ list = [] := by
  constructor
  · intro empty
    have same := tokens_joinTokens_self '.' proper
    rw [empty] at same
    exact same.symm
  · rintro rfl
    rfl

theorem appendToken_joinTokens {list : List Text} (proper : ∀ token ∈ list, IsToken '.' token)
    (token : Text) :
    AliasTree.appendToken (joinTokens '.' list) token = joinTokens '.' (list ++ [token]) := by
  rw [AliasTree.appendToken, joinTokens_append]
  by_cases empty : list = [] <;> simp [joinTokens_eq_nil proper, empty, joinTokens]

theorem strstr_skip {token : Text} (free : '.' ∉ token) (rest : Text) :
    strstr "..".toList (token ++ rest) = strstr "..".toList rest := by
  induction token with
  | nil => rfl
  | cons c token ih =>
    simp only [List.mem_cons, not_or] at free
    have differs : ("..".toList).isPrefixOf (c :: (token ++ rest)) = false := by
      simp [List.isPrefixOf, free.1]
    rw [List.cons_append, strstr, differs, if_neg Bool.false_ne_true, ih free.2]

theorem strstr_joinTokens {list : List Text} (proper : ∀ token ∈ list, IsToken '.' token) :
    strstr "..".toList (joinTokens '.' list) = none := by
  induction list with
  | nil => rfl
  | cons token rest ih =>
    obtain ⟨-, free⟩ := proper token List.mem_cons_self
    have later := ih fun other member => proper other (List.mem_cons_of_mem token member)
    cases rest with
    | nil =>
      have skip := strstr_skip free []
      rw [List.append_nil] at skip
      exact skip
    | cons next more =>
      rw [joinTokens, strstr_skip free, strstr]
      obtain ⟨c, tail, isNext⟩ := List.exists_cons_of_ne_nil (proper next (by simp)).1
      have dotFree : c ≠ '.' := by
        rintro rfl
        exact (proper next (by simp)).2 (by simp [isNext])
      have head : ("..".toList).isPrefixOf ('.' :: joinTokens '.' (next :: more)) = false := by
        cases more <;> simp [joinTokens, isNext, List.isPrefixOf, Ne.symm dotFree]
      rw [head, if_neg Bool.false_ne_true, later]

theorem validName_joinTokens {list : List Text} (nonempty : list ≠ [])
    (proper : ∀ token ∈ list, IsToken '.' token) : AliasTree.validName (joinTokens '.' list) = true := by
  obtain ⟨token, rest, rfl⟩ := List.exists_cons_of_ne_nil nonempty
  obtain ⟨some, free⟩ := proper token List.mem_cons_self
  obtain ⟨c, tail, rfl⟩ := List.exists_cons_of_ne_nil some
  have head : (joinTokens '.' ((c :: tail) :: rest)).head? = Option.some c := by
    cases rest <;> simp [joinTokens]
  have dotFree : c ≠ '.' := by
    rintro rfl
    exact free List.mem_cons_self
  have single : strstr ['.', '.'] (joinTokens '.' ((c :: tail) :: rest)) = none := strstr_joinTokens proper
  simp [AliasTree.validName, single, head, dotFree, joinTokens_eq_nil proper]

theorem tokens_ne_nil {name : Text} (valid : AliasTree.validName name = true) : tokens '.' name ≠ [] := by
  simp only [AliasTree.validName, Bool.and_eq_true, decide_eq_true_eq] at valid
  obtain ⟨c, rest, rfl⟩ := List.exists_cons_of_ne_nil valid.1.1
  have dotFree : c ≠ '.' := by simpa using valid.1.2
  simp only [tokens, tokensFrom, if_neg dotFree]
  exact tokensFrom_ne_nil '.' (by simp) rest

end Names

namespace AliasTree

theorem isSome_find_above {tree : AliasTree} {path rest : List Text} (nonempty : path ≠ [])
    (present : (tree.find (path ++ rest)).isSome) : (tree.find path).isSome := by
  induction path generalizing tree with
  | nil => exact absurd rfl nonempty
  | cons name later ih =>
    cases later with
    | nil =>
      cases rest with
      | nil => simpa using present
      | cons next more =>
        rw [List.cons_append, List.nil_append, find_cons_cons] at present
        rw [find_singleton]
        cases child : tree.findChild name with
        | none => simp [childrenOf, child] at present
        | some found => rfl
    | cons next more =>
      rw [List.cons_append, List.cons_append, find_cons_cons] at present
      rw [find_cons_cons]
      exact ih (by simp) present

def addPairs (tree : AliasTree) (pairs : List (List Text × Text)) : AliasTree :=
  pairs.foldl (fun tree pair => (tree.attachAt true pair.2 pair.1).2) tree

structure Fits (done rest : List Text) : Prop where
  proper : ∀ token ∈ done ++ rest, IsToken '.' token
  whole : (joinTokens '.' (done ++ rest)).length ≤ nameLength
  first : done = [] → ∀ token ∈ rest.head?, token.length < nameLength

theorem Fits.next {done rest : List Text} {token : Text} (fits : Fits done (token :: rest)) :
    Fits (done ++ [token]) rest := by
  obtain ⟨proper, whole, -⟩ := fits
  refine ⟨?_, ?_, by simp⟩
  · simpa using proper
  · simpa using whole

theorem Fits.step {done rest : List Text} {token : Text} (fits : Fits done (token :: rest)) :
    (joinTokens '.' done).length + 1 + token.length ≤ nameLength := by
  by_cases empty : done = []
  · subst empty
    have short := fits.first rfl token (by simp)
    simp only [joinTokens, List.length_nil]
    omega
  · have here := length_joinTokens_append '.' (done ++ [token]) rest
    have whole := fits.whole
    rw [List.append_assoc, List.singleton_append] at here
    rw [joinTokens_append, if_neg empty, if_neg (by simp)] at here
    simp only [joinTokens, List.length_append, List.length_cons] at here
    omega

theorem Fits.properDone {done rest : List Text} (fits : Fits done rest) :
    ∀ token ∈ done, IsToken '.' token :=
  fun token member => fits.proper token (List.mem_append_left rest member)

theorem Fits.short {done rest : List Text} (fits : Fits done rest) :
    (joinTokens '.' done).length ≤ nameLength :=
  (length_joinTokens_append '.' done rest).trans fits.whole

theorem addStrictItem_joinTokens (tree : AliasTree) {here aliasHere : List Text} (nonempty : here ≠ [])
    (aliasNonempty : aliasHere ≠ []) (proper : ∀ token ∈ here, IsToken '.' token)
    (aliasProper : ∀ token ∈ aliasHere, IsToken '.' token)
    (short : (joinTokens '.' here).length ≤ nameLength) :
    tree.addStrictItem (joinTokens '.' here) (joinTokens '.' aliasHere) =
      tree.attachAt true (joinTokens '.' aliasHere) here := by
  rw [addStrictItem, validName_joinTokens nonempty proper, validName_joinTokens aliasNonempty aliasProper,
    tcAllocate_of_fits short, tokens_joinTokens_self '.' proper]
  rfl

theorem findMakeNode_exhausted (name : Text) (rest : List Text) (walk : Walk) :
    findMakeNode name rest [] walk = (walk.tree, walk.path ++ rest) := by
  induction rest generalizing walk with
  | nil => simp [findMakeNode]
  | cons token rest ih =>
    simp only [findMakeNode]
    split_ifs
    · rw [ih]
      simp
    · rfl

theorem isSome_find_attachAt (tree : AliasTree) (bStrict : Bool) (aliasName : Text) {path : List Text}
    (nonempty : path ≠ []) : ((tree.attachAt bStrict aliasName path).2.find path).isSome := by
  obtain ⟨name, rest, rfl⟩ := List.exists_cons_of_ne_nil nonempty
  simp only [attachAt]
  rw [isSome_find_attach]
  exact .inr ⟨nonempty, List.prefix_rfl⟩

theorem findMakeNode_adding (name : Text) (rest others : List Text) {done aliasDone : List Text}
    {tree : AliasTree} (path : tokens '.' name = done ++ rest) (fits : Fits done rest)
    (aliasFits : Fits aliasDone others) :
    findMakeNode name rest others
        ⟨tree, done, joinTokens '.' done, joinTokens '.' aliasDone, true⟩ =
      (addPairs tree (strictPairs name done aliasDone rest others), done ++ rest) := by
  induction rest generalizing others done aliasDone tree with
  | nil => simp [findMakeNode, strictPairs, addPairs]
  | cons token rest ih =>
    cases others with
    | nil =>
      rw [findMakeNode_exhausted]
      simp [strictPairs, addPairs]
    | cons other others =>
      have short := fits.step
      have aliasShort := aliasFits.step
      have room : ¬ ((joinTokens '.' done).length + 1 + token.length > nameLength ∨
          (joinTokens '.' aliasDone).length + 1 + other.length > nameLength) := by omega
      simp only [findMakeNode, if_neg room, appendToken_joinTokens fits.properDone,
        appendToken_joinTokens aliasFits.properDone, Bool.true_or, Bool.true_and, decide_eq_true_eq,
        strictPairs]
      have deeper : tokens '.' name = (done ++ [token]) ++ rest := by simpa using path
      by_cases last : joinTokens '.' (done ++ [token]) = name
      · -- the partial name is the whole name, so this was its last token
        have whole : done ++ [token] = done ++ [token] ++ rest := by
          rw [← deeper, ← last, tokens_joinTokens_self '.' fits.next.properDone]
        have finished : rest = [] := by simpa using whole
        subst finished
        simp [last, findMakeNode, strictPairs, addPairs]
      · have made := isSome_find_attachAt tree true (joinTokens '.' (aliasDone ++ [other]))
          (show done ++ [token] ≠ [] by simp)
        simp only [ne_eq, last, not_false_eq_true, if_true]
        rw [addStrictItem_joinTokens tree (by simp) (by simp) fits.next.properDone
          aliasFits.next.properDone fits.next.short, if_pos made, ih others deeper fits.next aliasFits.next]
        simp [addPairs]

theorem findMakeNode_walking (tree : AliasTree) (name : Text) (rest others : List Text) {done : List Text}
    (path : tokens '.' name = done ++ rest) (fits : Fits done rest) (aliasFits : Fits done others)
    (known : done = [] ∨ (tree.find done).isSome) :
    findMakeNode name rest others ⟨tree, done, joinTokens '.' done, joinTokens '.' done, false⟩ =
      (if done ++ sharedPrefix rest others = [] ∨ (tree.find (done ++ sharedPrefix rest others)).isSome then
          addPairs tree (auxiliaryFrom name done rest others)
        else tree, done ++ rest) := by
  induction rest generalizing others done with
  | nil => simp [findMakeNode, auxiliaryFrom, addPairs]
  | cons token rest ih =>
    cases others with
    | nil =>
      rw [findMakeNode_exhausted]
      simp [auxiliaryFrom, addPairs]
    | cons other others =>
      by_cases same : token = other
      · subst same
        have short := fits.step
        have room : ¬ ((joinTokens '.' done).length + 1 + token.length > nameLength ∨
            (joinTokens '.' done).length + 1 + token.length > nameLength) := by omega
        have deeper : tokens '.' name = (done ++ [token]) ++ rest := by simpa using path
        have shared : done ++ sharedPrefix (token :: rest) (token :: others) =
            (done ++ [token]) ++ sharedPrefix rest others := by simp [sharedPrefix]
        have further : auxiliaryFrom name done (token :: rest) (token :: others) =
            auxiliaryFrom name (done ++ [token]) rest others := by simp [auxiliaryFrom]
        rw [shared, further]
        simp only [findMakeNode, if_neg room, appendToken_joinTokens fits.properDone, ne_eq,
          not_true_eq_false, decide_false, Bool.or_false, Bool.false_and, Bool.false_eq_true, if_false]
        by_cases present : (tree.find (done ++ [token])).isSome = true
        · rw [if_pos present, ih others deeper fits.next aliasFits.next (.inr present)]
          simp
        · -- the walk ends here, and what the paths share further is missing as well
          have missing : ¬ (done ++ [token] ++ sharedPrefix rest others = [] ∨
              (tree.find (done ++ [token] ++ sharedPrefix rest others)).isSome = true) := by
            rintro (empty | found)
            · simp at empty
            · exact present (isSome_find_above (by simp) found)
          rw [if_neg present, if_neg missing]
      · have adding : findMakeNode name (token :: rest) (other :: others)
            ⟨tree, done, joinTokens '.' done, joinTokens '.' done, false⟩ =
            findMakeNode name (token :: rest) (other :: others)
              ⟨tree, done, joinTokens '.' done, joinTokens '.' done, true⟩ := by
          simp [findMakeNode, same]
        rw [adding, findMakeNode_adding name _ _ path fits aliasFits]
        simp [sharedPrefix, auxiliaryFrom, same, known]

theorem Fits.start {name : Text} (fits : name.length ≤ nameLength)
    (first : (tokens '.' name).head?.all (·.length < nameLength) = true) : Fits [] (tokens '.' name) where
  proper := by simpa using tokens_isToken '.' name
  whole := (length_joinTokens_tokens '.' name).trans fits
  first := by
    intro _ token member
    rw [Option.mem_def] at member
    simpa [member] using first

def Reaches (tree : AliasTree) (item : TreeItem) : Prop :=
  item.shared = [] ∨ (tree.find item.shared).isSome

instance (tree : AliasTree) (item : TreeItem) : Decidable (tree.Reaches item) :=
  inferInstanceAs (Decidable (_ ∨ _))

def add (tree : AliasTree) (item : TreeItem) : AliasTree :=
  (tree.addItem item.name item.aliasName item.bStrict).2

theorem addItem_strict (tree : AliasTree) {item : TreeItem} (strict : item.bStrict = true)
    (loads : item.loads = true) :
    tree.addItem item.name item.aliasName item.bStrict = tree.attachAt true item.aliasName item.path := by
  simp only [TreeItem.loads, Bool.and_eq_true] at loads
  simp [addItem, addStrictItem, strict, loads.1.1, loads.1.2, tcAllocate_of_fits item.nameFits, TreeItem.path]

theorem addItem_plain (tree : AliasTree) {item : TreeItem} (plain : item.bStrict = false)
    (loads : item.loads = true) :
    tree.addItem item.name item.aliasName item.bStrict =
      (if tree.Reaches item then tree.addPairs item.auxiliary else tree).attachAt false
        item.aliasName item.path := by
  simp only [TreeItem.loads, plain, Bool.false_or, Bool.and_eq_true] at loads
  obtain ⟨⟨valid, aliasValid⟩, first, aliasFirst⟩ := loads
  have walked := findMakeNode_walking tree item.name item.path item.aliasPath rfl
    (Fits.start item.nameFits first) (Fits.start item.aliasFits aliasFirst) (.inl rfl)
  simp only [List.nil_append, joinTokens] at walked
  simp only [addItem, plain, Bool.false_eq_true, if_false, valid, aliasValid, Bool.and_self, if_true,
    tcAllocate_of_fits item.nameFits, tcAllocate_of_fits item.aliasFits]
  change AliasTree.attachAt (findMakeNode item.name item.path item.aliasPath _).1 false item.aliasName
    (findMakeNode item.name item.path item.aliasPath _).2 = _
  rw [walked]
  rfl

theorem addItem_refused (tree : AliasTree) {item : TreeItem} (refused : item.loads = false) :
    tree.addItem item.name item.aliasName item.bStrict = (false, tree) := by
  simp only [addItem, addStrictItem, tcAllocate_of_fits item.nameFits, tcAllocate_of_fits item.aliasFits]
  by_cases valid : (validName item.name && validName item.aliasName) = true
  · simp only [TreeItem.loads, valid, Bool.true_and, Bool.or_eq_false_iff] at refused
    obtain ⟨plain, long⟩ := refused
    have nameValid := (Bool.and_eq_true_iff.mp valid).1
    have aliasValid := (Bool.and_eq_true_iff.mp valid).2
    obtain ⟨token, rest, path⟩ := List.exists_cons_of_ne_nil (tokens_ne_nil nameValid)
    obtain ⟨other, others, aliasPath⟩ := List.exists_cons_of_ne_nil (tokens_ne_nil aliasValid)
    have room : 0 + 1 + token.length > nameLength ∨ 0 + 1 + other.length > nameLength := by
      simp only [TreeItem.path, TreeItem.aliasPath, path, aliasPath, List.head?_cons, Option.all_some,
        Bool.and_eq_false_iff, decide_eq_false_iff_not] at long
      omega
    simp only [plain, valid, Bool.false_eq_true, if_false, if_true, path, aliasPath, findMakeNode,
      List.length_nil, if_pos room, attachAt]
  · simp [valid]

theorem listsAt_attachAt (tree : AliasTree) (bStrict : Bool) (aliasName : Text) {path : List Text}
    (nonempty : path ≠ []) (query : List Text) :
    (tree.attachAt bStrict aliasName path).2.listsAt query =
      if query = path then addTo bStrict aliasName (tree.listsAt query) else tree.listsAt query := by
  obtain ⟨name, rest, rfl⟩ := List.exists_cons_of_ne_nil nonempty
  exact listsAt_attach (addTo bStrict aliasName) name rest query tree

theorem isSome_find_attachAt_iff (tree : AliasTree) (bStrict : Bool) (aliasName : Text)
    (path query : List Text) :
    ((tree.attachAt bStrict aliasName path).2.find query).isSome ↔
      (tree.find query).isSome ∨ (query ≠ [] ∧ query <+: path) := by
  cases path with
  | nil =>
    simp [attachAt]
  | cons name rest => exact isSome_find_attach (addTo bStrict aliasName) name rest query tree

theorem mem_pushAlias (list : List Text) (aliasName other : Text) :
    other ∈ pushAlias list aliasName ↔ other ∈ list ∨ other = aliasName := by
  rw [pushAlias]
  split_ifs with present
  · constructor
    · exact Or.inl
    · rintro (old | rfl)
      · exact old
      · exact present
  · simp [or_comm]

theorem nodup_pushAlias {list : List Text} (nodup : list.Nodup) (aliasName : Text) :
    (pushAlias list aliasName).Nodup := by
  rw [pushAlias]
  split_ifs with present
  · exact nodup
  · exact List.nodup_cons.mpr ⟨present, nodup⟩

def NodupLists (tree : AliasTree) : Prop :=
  ∀ query, (tree.listsAt query).aliases.Nodup ∧ (tree.listsAt query).strictAliases.Nodup

theorem NodupLists.attachAt {tree : AliasTree} (nodup : tree.NodupLists) (bStrict : Bool) (aliasName : Text)
    (path : List Text) : (tree.attachAt bStrict aliasName path).2.NodupLists := by
  by_cases empty : path = []
  · rw [empty]
    exact nodup
  · intro query
    obtain ⟨plain, strict⟩ := nodup query
    rw [listsAt_attachAt tree bStrict aliasName empty]
    split_ifs
    · cases bStrict
      · exact ⟨nodup_pushAlias plain aliasName, strict⟩
      · exact ⟨plain, nodup_pushAlias strict aliasName⟩
    · exact ⟨plain, strict⟩

theorem NodupLists.addPairs {tree : AliasTree} (nodup : tree.NodupLists) (pairs : List (List Text × Text)) :
    (tree.addPairs pairs).NodupLists := by
  induction pairs generalizing tree with
  | nil => exact nodup
  | cons pair pairs ih => exact ih (nodup.attachAt true pair.2 pair.1)

theorem addPairs_spec (pairs : List (List Text × Text)) (nonempty : ∀ pair ∈ pairs, pair.1 ≠ [])
    (tree : AliasTree) (query : List Text) :
    ((tree.addPairs pairs).listsAt query).aliases = (tree.listsAt query).aliases ∧
    (∀ aliasName, aliasName ∈ ((tree.addPairs pairs).listsAt query).strictAliases ↔
      aliasName ∈ (tree.listsAt query).strictAliases ∨ (query, aliasName) ∈ pairs) ∧
    (((tree.addPairs pairs).find query).isSome ↔
      (tree.find query).isSome ∨ ∃ pair ∈ pairs, query ≠ [] ∧ query <+: pair.1) := by
  induction pairs generalizing tree with
  | nil => simp [addPairs]
  | cons pair pairs ih =>
    have here := nonempty pair List.mem_cons_self
    obtain ⟨plain, strict, found⟩ := ih (fun other member => nonempty other (List.mem_cons_of_mem pair member))
      (tree.attachAt true pair.2 pair.1).2
    have unfolded : tree.addPairs (pair :: pairs) = (tree.attachAt true pair.2 pair.1).2.addPairs pairs := rfl
    rw [unfolded, plain, found, isSome_find_attachAt_iff]
    simp only [strict, listsAt_attachAt tree true pair.2 here]
    refine ⟨?_, ?_, ?_⟩
    · split_ifs <;> rfl
    · intro aliasName
      obtain ⟨path, other⟩ := pair
      by_cases same : query = path
      · subst same
        simp [addTo, mem_pushAlias, or_assoc]
      · simp [same]
    · simp [or_assoc]

end AliasTree

section Auxiliary

theorem mem_strictPairs {name : Text} (rest others : List Text) {done aliasDone query : List Text}
    {aliasName : Text} (member : (query, aliasName) ∈ strictPairs name done aliasDone rest others) :
    query ≠ [] ∧ query <+: done ++ rest ∧
      ∃ part, part <+: aliasDone ++ others ∧ aliasName = joinTokens '.' part := by
  induction rest generalizing others done aliasDone with
  | nil => simp [strictPairs] at member
  | cons token rest ih =>
    cases others with
    | nil => simp [strictPairs] at member
    | cons other others =>
      have later (below : (query, aliasName) ∈
          strictPairs name (done ++ [token]) (aliasDone ++ [other]) rest others) :
          query ≠ [] ∧ query <+: done ++ token :: rest ∧
            ∃ part, part <+: aliasDone ++ other :: others ∧ aliasName = joinTokens '.' part := by
        simpa using ih others below
      simp only [strictPairs] at member
      split_ifs at member with proper
      · rcases List.mem_cons.mp member with here | below
        · obtain ⟨rfl, rfl⟩ := Prod.mk.inj here
          exact ⟨by simp, by simp, aliasDone ++ [other], by simp, rfl⟩
        · exact later below
      · exact later member

theorem mem_auxiliaryFrom {name : Text} (rest others : List Text) {done query : List Text}
    {aliasName : Text} (member : (query, aliasName) ∈ auxiliaryFrom name done rest others) :
    query ≠ [] ∧ query <+: done ++ rest ∧
      ∃ part, part <+: done ++ others ∧ aliasName = joinTokens '.' part := by
  induction rest generalizing others done with
  | nil => simp [auxiliaryFrom] at member
  | cons token rest ih =>
    cases others with
    | nil => simp [auxiliaryFrom] at member
    | cons other others =>
      simp only [auxiliaryFrom] at member
      split_ifs at member with same
      · subst same
        simpa using ih others member
      · exact mem_strictPairs _ _ member

theorem TreeItem.mem_auxiliary {item : TreeItem} {query : List Text} {aliasName : Text}
    (member : (query, aliasName) ∈ item.auxiliary) : query ≠ [] ∧ query <+: item.path := by
  obtain ⟨nonempty, above, -⟩ := mem_auxiliaryFrom _ _ member
  exact ⟨nonempty, by simpa using above⟩

theorem TreeItem.length_auxiliary {item : TreeItem} {query : List Text} {aliasName : Text}
    (member : (query, aliasName) ∈ item.auxiliary) : aliasName.length ≤ nameLength := by
  obtain ⟨-, -, part, ⟨rest, whole⟩, rfl⟩ := mem_auxiliaryFrom _ _ member
  have shorter := length_joinTokens_append '.' part rest
  rw [whole, List.nil_append] at shorter
  exact shorter.trans ((length_joinTokens_tokens '.' item.aliasName).trans item.aliasFits)

end Auxiliary

section Adding

theorem TreeItem.path_ne_nil {item : TreeItem} (loads : item.loads = true) : item.path ≠ [] := by
  simp only [TreeItem.loads, Bool.and_eq_true] at loads
  exact tokens_ne_nil loads.1.1

namespace AliasTree

def AddsStrictly (tree : AliasTree) (item : TreeItem) (query : List Text) (aliasName : Text) : Prop :=
  (item.bStrict = true ∧ query = item.path ∧ aliasName = item.aliasName) ∨
    (item.bStrict = false ∧ tree.Reaches item ∧ (query, aliasName) ∈ item.auxiliary)

theorem add_refused (tree : AliasTree) {item : TreeItem} (refused : item.loads = false) :
    tree.add item = tree := by
  rw [add, addItem_refused tree refused]

theorem NodupLists.add {tree : AliasTree} (nodup : tree.NodupLists) (item : TreeItem) :
    (tree.add item).NodupLists := by
  cases loads : item.loads with
  | false =>
    rw [add_refused tree loads]
    exact nodup
  | true =>
    cases strict : item.bStrict with
    | true =>
      rw [AliasTree.add, addItem_strict tree strict loads]
      exact nodup.attachAt true item.aliasName item.path
    | false =>
      rw [AliasTree.add, addItem_plain tree strict loads]
      split_ifs
      · exact (nodup.addPairs item.auxiliary).attachAt false item.aliasName item.path
      · exact nodup.attachAt false item.aliasName item.path

theorem add_spec (tree : AliasTree) (item : TreeItem) (query : List Text) :
    (∀ aliasName, aliasName ∈ ((tree.add item).listsAt query).aliases ↔
      aliasName ∈ (tree.listsAt query).aliases ∨
        (item.loads = true ∧ item.bStrict = false ∧ query = item.path ∧ aliasName = item.aliasName)) ∧
    (∀ aliasName, aliasName ∈ ((tree.add item).listsAt query).strictAliases ↔
      aliasName ∈ (tree.listsAt query).strictAliases ∨
        (item.loads = true ∧ tree.AddsStrictly item query aliasName)) ∧
    (((tree.add item).find query).isSome ↔
      (tree.find query).isSome ∨ (item.loads = true ∧ query ≠ [] ∧ query <+: item.path)) := by
  cases loads : item.loads with
  | false => simp [add_refused tree loads]
  | true =>
    have nonempty := TreeItem.path_ne_nil loads
    cases strict : item.bStrict with
    | true =>
      have added : tree.add item = (tree.attachAt true item.aliasName item.path).2 := by
        rw [add, addItem_strict tree strict loads]
      rw [added, listsAt_attachAt tree true item.aliasName nonempty, isSome_find_attachAt_iff]
      by_cases same : query = item.path <;>
        simp [same, addTo, mem_pushAlias, AddsStrictly, strict]
    | false =>
      have added : tree.add item =
          ((if tree.Reaches item then tree.addPairs item.auxiliary else tree).attachAt false
            item.aliasName item.path).2 := by
        rw [add, addItem_plain tree strict loads]
      rw [added, listsAt_attachAt _ false item.aliasName nonempty, isSome_find_attachAt_iff]
      obtain ⟨plain, strictly, found⟩ := addPairs_spec item.auxiliary
        (fun pair member => (TreeItem.mem_auxiliary member).1) tree query
      -- the nodes of the auxiliary aliases are on the way to the node of the item
      have covered : (∃ pair ∈ item.auxiliary, query ≠ [] ∧ query <+: pair.1) →
          query ≠ [] ∧ query <+: item.path := by
        rintro ⟨pair, member, some, above⟩
        exact ⟨some, above.trans (TreeItem.mem_auxiliary member).2⟩
      by_cases reaches : tree.Reaches item
      · simp only [if_pos reaches]
        refine ⟨?_, ?_, ?_⟩
        · intro aliasName
          rw [← plain]
          by_cases same : query = item.path <;> simp [same, addTo, mem_pushAlias]
        · intro aliasName
          have kept : (if query = item.path then addTo false item.aliasName
              ((tree.addPairs item.auxiliary).listsAt query)
              else (tree.addPairs item.auxiliary).listsAt query).strictAliases =
              ((tree.addPairs item.auxiliary).listsAt query).strictAliases := by
            split_ifs <;> rfl
          rw [kept, strictly]
          simp [AddsStrictly, strict, reaches]
        · rw [found]
          constructor
          · rintro ((old | above) | here)
            · exact .inl old
            · exact .inr ⟨trivial, covered above⟩
            · exact .inr ⟨trivial, here⟩
          · rintro (old | ⟨-, here⟩)
            · exact .inl (.inl old)
            · exact .inr here
      · simp only [if_neg reaches]
        by_cases same : query = item.path <;>
          simp [same, addTo, mem_pushAlias, AddsStrictly, strict, reaches]

end AliasTree

end Adding

end CcspCommon.AliasMgr
