import CcspCommon.AnscPlatform.AnscString
import CcspCommon.AnscPlatform.DList
import Mathlib

set_option autoImplicit false

namespace CcspCommon.AliasMgr

open CcspCommon.Shared
open CcspCommon.AnscPlatform (tcAllocate uriPathSize ushort)

def nameLength : Nat := 256

structure AliasLists where
  aliases : List Text
  strictAliases : List Text
  deriving DecidableEq, Repr

-- The depth of a list is a `USHORT`: 65536 aliases count as none.
def stringSListIsEmpty (list : List Text) : Prop := ushort list.length = 0

instance (list : List Text) : Decidable (stringSListIsEmpty list) := inferInstanceAs (Decidable (_ = _))

@[simp] theorem stringSListIsEmpty_nil : stringSListIsEmpty [] := rfl

theorem not_stringSListIsEmpty {list : List Text} (some : list ≠ []) (few : list.length < 65536) :
    ¬ stringSListIsEmpty list := by
  rw [stringSListIsEmpty, ushort, Nat.mod_eq_of_lt few, List.length_eq_zero_iff]
  exact some

def AliasLists.empty : AliasLists := ⟨[], []⟩

inductive AliasTree
  | nil
  | node (name : Text) (lists : AliasLists) (child sibling : AliasTree)
  deriving Repr

namespace AliasTree

def findChild (name : Text) : AliasTree → Option (AliasLists × AliasTree)
  | nil => none
  | node other lists child sibling =>
    if other = name then some (lists, child) else sibling.findChild name

def find : List Text → AliasTree → Option AliasLists
  | [], _ => none
  | [name], tree => (tree.findChild name).map Prod.fst
  | name :: next :: rest, tree => (tree.findChild name).bind fun found => found.2.find (next :: rest)

def chain (change : AliasLists → AliasLists) (name : Text) : List Text → AliasTree
  | [] => node name (change .empty) nil nil
  | next :: rest => node name .empty (chain change next rest) nil

/-- The tree after the lists of the node at the path `name :: rest` were changed; nodes that are
missing are created behind the last sibling. -/
def attach (change : AliasLists → AliasLists) (name : Text) (rest : List Text) : AliasTree → AliasTree
  | nil => chain change name rest
  | node other lists child sibling =>
    if other = name then
      match rest with
      | [] => node other (change lists) child sibling
      | next :: more => node other lists (attach change next more child) sibling
    else node other lists child (attach change name rest sibling)

def pushAlias (list : List Text) (aliasName : Text) : List Text :=
  if aliasName ∈ list then list else aliasName :: list

def addTo (bStrict : Bool) (aliasName : Text) (lists : AliasLists) : AliasLists :=
  if bStrict then { lists with strictAliases := pushAlias lists.strictAliases aliasName }
  else { lists with aliases := pushAlias lists.aliases aliasName }

def validName (name : Text) : Bool :=
  name ≠ [] && name.head? ≠ some '.' && (strstr "..".toList name).isNone

def attachAt (tree : AliasTree) (bStrict : Bool) (aliasName : Text) : List Text → Bool × AliasTree
  | [] => (false, tree)
  | name :: rest => (true, tree.attach (addTo bStrict aliasName) name rest)

def addStrictItem (tree : AliasTree) (name aliasName : Text) : Bool × AliasTree :=
  if validName name && validName aliasName then
    match tcAllocate '.' name with
    | none => (false, tree)
    | some path => tree.attachAt true aliasName path
  else (false, tree)

def appendToken (string token : Text) : Text := if string = [] then token else string ++ '.' :: token

structure Walk where
  tree : AliasTree
  path : List Text
  partialName : Text
  partialAlias : Text
  bAddAux : Bool

-- `CcspAliasMgrFindMakeNode` without `bStrict`, from the current node on: the tree with the strict
-- aliases added on the way, and the path of the node that is found or to be made.
def findMakeNode (name : Text) : List Text → List Text → Walk → AliasTree × List Text
  | [], _, walk => (walk.tree, walk.path)
  | nodeName :: rest, [], walk =>
    -- the alias has fewer tokens than the name, which is only reported
    if (walk.tree.find (walk.path ++ [nodeName])).isSome then
      findMakeNode name rest [] { walk with path := walk.path ++ [nodeName] }
    else (walk.tree, walk.path ++ nodeName :: rest)
  | nodeName :: rest, aliasNodeName :: aliasRest, walk =>
    if walk.partialName.length + 1 + nodeName.length > nameLength ∨
        walk.partialAlias.length + 1 + aliasNodeName.length > nameLength then
      -- the alias goes to the last node that was found
      (walk.tree, walk.path)
    else
      let partialName := appendToken walk.partialName nodeName
      let partialAlias := appendToken walk.partialAlias aliasNodeName
      let bAddAux := walk.bAddAux || nodeName ≠ aliasNodeName
      let tree := if bAddAux && partialName ≠ name then (walk.tree.addStrictItem partialName partialAlias).2
        else walk.tree
      if (tree.find (walk.path ++ [nodeName])).isSome then
        findMakeNode name rest aliasRest ⟨tree, walk.path ++ [nodeName], partialName, partialAlias, bAddAux⟩
      else (tree, walk.path ++ nodeName :: rest)

def addItem (tree : AliasTree) (name aliasName : Text) (bStrict : Bool) : Bool × AliasTree :=
  if bStrict then tree.addStrictItem name aliasName
  else if validName name && validName aliasName then
    match tcAllocate '.' name, tcAllocate '.' aliasName with
    | some nameTokens, some aliasTokens =>
      let (made, path) := findMakeNode name nameTokens aliasTokens ⟨tree, [], [], [], false⟩
      made.attachAt false aliasName path
    | _, _ => (false, tree)
  else (false, tree)

end AliasTree

def insNumber (name : Text) : BitVec 32 := BitVec.ofInt 32 (atoi name)

def isNameInsIdentifier (name : Text) : Bool :=
  if name.head? = some '0' then false
  else if insNumber name = 0 then name.head? = some '[' && name.getLast? = some ']'
  else decimal (insNumber name).toNat = name

def placeholder : Text := "{i}".toList

-- `sprintf_s` behind the end of the result cuts a piece that does not fit.
def printPiece (result piece : Text) : Text := (result ++ piece).take nameLength

def isQueueEmpty (insIds : List Text) : Prop := ushort insIds.length = 0

instance (insIds : List Text) : Decidable (isQueueEmpty insIds) := inferInstanceAs (Decidable (_ = _))

def replaceTokens (insIds : List Text) : List Text → List Text → Text → Option Text
  | [], _, result => some result
  | token :: rest, left, result =>
    if ¬ isQueueEmpty insIds ∧ token = placeholder then
      match left with
      | [] => none
      | insId :: others => replaceTokens insIds rest others (printPiece result ('.' :: insId))
    else replaceTokens insIds rest left (printPiece result (if result = [] then token else '.' :: token))

def replaceInstanceIds (aliasName : Text) (insIds : List Text) : Option Text :=
  (tcAllocate '.' aliasName).bind fun aliasTokens => replaceTokens insIds aliasTokens insIds []

/-- The node that stops a lookup, the instance identifiers met on the way and the tokens left. -/
structure Found where
  lists : AliasLists
  insIds : List Text
  rest : List Text
  deriving DecidableEq, Repr

-- The child that a token of a name goes to; specific instances are not mapped.
def childName (token : Text) : Text := if isNameInsIdentifier token then placeholder else token

def lookupAliasNode : List Text → List Text → AliasTree → Option Found
  | [], _, _ => none
  | token :: rest, insIds, tree =>
    let insIds := if isNameInsIdentifier token then insIds ++ [token] else insIds
    match tree.findChild (childName token) with
    | none => none
    | some (lists, child) =>
      if ¬ stringSListIsEmpty lists.aliases ∨ (rest = [] ∧ ¬ stringSListIsEmpty lists.strictAliases) then
        some ⟨lists, insIds, rest⟩
      else lookupAliasNode rest insIds child

-- `OutRemaining`; no node is returned when it gets too long.
def appendRemaining : Text → List Text → Option Text
  | remaining, [] => some remaining
  | remaining, token :: rest =>
    if remaining.length + token.length ≤ nameLength - 1 then
      appendRemaining (remaining ++ '.' :: token) rest
    else none

-- The loop over the aliases of the node; the results are pushed in front.
def collectNames (insIds : List Text) (remaining : Text) (isPartialName : Bool) :
    List Text → List Text → Option (List Text)
  | [], names => some names
  | aliasName :: rest, names =>
    match replaceInstanceIds aliasName insIds with
    | none => collectNames insIds remaining isPartialName rest names
    | some result =>
      if remaining ≠ [] ∧ result.length + remaining.length > nameLength then none
      else collectNames insIds remaining isPartialName rest
        ((result ++ remaining ++ if isPartialName then ['.'] else []) :: names)

def Found.aliasList (found : Found) : List Text :=
  if ¬ stringSListIsEmpty found.lists.aliases then found.lists.aliases else found.lists.strictAliases

-- `none` is a NULL list.
def findAliases (tree : AliasTree) (name : Text) : Option (List Text) :=
  (tcAllocate '.' name).bind fun nameTokens =>
  (lookupAliasNode nameTokens [] tree).bind fun found =>
  (appendRemaining [] found.rest).bind fun remaining =>
    if stringSListIsEmpty found.aliasList then none
    else collectNames found.insIds remaining (name.getLast? = some '.') found.aliasList []

structure AliasManager where
  extTree : AliasTree
  intTree : AliasTree

structure AliasEntry where
  internal : Text
  external : Text
  bStrict : Bool
  internalFits : internal.length ≤ nameLength
  externalFits : external.length ≤ nameLength

namespace AliasManager

def create : AliasManager := ⟨.nil, .nil⟩

def loadAliasInfo (mgr : AliasManager) (entry : AliasEntry) : AliasManager :=
  let (bSucc, extTree) := mgr.extTree.addItem entry.external entry.internal entry.bStrict
  if bSucc && entry.internal ≠ entry.external then
    ⟨extTree, (mgr.intTree.addItem entry.internal entry.external entry.bStrict).2⟩
  else ⟨extTree, mgr.intTree⟩

-- `CcspAliasMgrLoadMappingFile`; an entry that cannot be added is skipped.
def loadMappingFile (table : List AliasEntry) : AliasManager := table.foldl loadAliasInfo create

def getInternalNames (mgr : AliasManager) (paramName : Text) : Option (List Text) :=
  findAliases mgr.extTree paramName

def getFirstInternalName (mgr : AliasManager) (paramName : Text) : Option Text :=
  (mgr.getInternalNames paramName).bind List.head?

def getExternalName (mgr : AliasManager) (paramName : Text) : Option Text :=
  (findAliases mgr.intTree paramName).bind List.head?

end AliasManager

end CcspCommon.AliasMgr
