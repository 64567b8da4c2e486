import CcspCommon.AliasMgr.AliasTree
import CcspCommon.Shared.Recorded

set_option autoImplicit false

namespace CcspCommon.AliasMgr

open CcspCommon.Shared
open CcspCommon.AnscPlatform (tcAllocate)

abbrev Built (α : Type) : Type := Writer (List Text) α

def bufferSize : Nat := nameLength + 1

def InBuffer (string : Text) : Prop := string.length + 1 ≤ bufferSize

section Lookup

def buildTokens (insIds : List Text) : List Text → List Text → Text → Built (Option Text)
  | [], _, result => pure (some result)
  | token :: rest, left, result =>
    if ¬ isQueueEmpty insIds ∧ token = placeholder then
      match left with
      | [] => pure none
      | insId :: others => do
        let result ← recorded (printPiece result ('.' :: insId))
        buildTokens insIds rest others result
    else do
      let result ← recorded (printPiece result (if result = [] then token else '.' :: token))
      buildTokens insIds rest left result

def buildAlias (aliasName : Text) (insIds : List Text) : Built (Option Text) :=
  match tcAllocate '.' aliasName with
  | none => pure none
  | some aliasTokens => buildTokens insIds aliasTokens insIds []

def buildRemaining : Text → List Text → Built (Option Text)
  | remaining, [] => pure (some remaining)
  | remaining, token :: rest =>
    if remaining.length + token.length ≤ nameLength - 1 then do
      let dotted ← recorded (remaining ++ ['.'])
      let longer ← recorded (dotted ++ token)
      buildRemaining longer rest
    else pure none

def buildName (remaining : Text) (isPartialName : Bool) (result : Text) : Built Text := do
  let whole ← if remaining = [] then pure result else recorded (result ++ remaining)
  if isPartialName then recorded (whole ++ ['.']) else pure whole

def buildNames (insIds : List Text) (remaining : Text) (isPartialName : Bool) :
    List Text → List Text → Built (Option (List Text))
  | [], names => pure (some names)
  | aliasName :: rest, names => do
    match ← buildAlias aliasName insIds with
    | none => buildNames insIds remaining isPartialName rest names
    | some result =>
      if remaining ≠ [] ∧ result.length + remaining.length > nameLength then pure none
      else do
        let whole ← buildName remaining isPartialName result
        buildNames insIds remaining isPartialName rest (whole :: names)

def buildAliases (tree : AliasTree) (name : Text) : Built (Option (List Text)) :=
  match (tcAllocate '.' name).bind fun nameTokens => lookupAliasNode nameTokens [] tree with
  | none => pure none
  | some found => do
    match ← buildRemaining [] found.rest with
    | none => pure none
    | some remaining =>
      if stringSListIsEmpty found.aliasList then pure none
      else buildNames found.insIds remaining (name.getLast? = some '.') found.aliasList []

theorem outcome_buildTokens (insIds list left : List Text) (result : Text) :
    outcome (buildTokens insIds list left result) = replaceTokens insIds list left result := by
  induction list generalizing left result with
  | nil => rfl
  | cons token rest ih =>
    by_cases filled : ¬ isQueueEmpty insIds ∧ token = placeholder
    next =>
      cases left with
      | nil => simp only [buildTokens, replaceTokens, if_pos filled, outcome_pure]
      | cons insId others => simp only [buildTokens, replaceTokens, if_pos filled, outcome_bind, outcome_recorded, ih]
    next => simp only [buildTokens, replaceTokens, if_neg filled, outcome_bind, outcome_recorded, ih]

theorem outcome_buildAlias (aliasName : Text) (insIds : List Text) :
    outcome (buildAlias aliasName insIds) = replaceInstanceIds aliasName insIds := by
  rw [buildAlias, replaceInstanceIds]
  cases tcAllocate '.' aliasName with
  | none => rfl
  | some aliasTokens => exact outcome_buildTokens insIds aliasTokens insIds []

theorem outcome_buildRemaining (remaining : Text) (list : List Text) :
    outcome (buildRemaining remaining list) = appendRemaining remaining list := by
  induction list generalizing remaining with
  | nil => rfl
  | cons token rest ih =>
    rw [buildRemaining, appendRemaining]
    split_ifs
    · simp only [outcome_bind, outcome_recorded, ih, List.append_assoc, List.singleton_append]
    · rfl

theorem outcome_buildName (remaining : Text) (isPartialName : Bool) (result : Text) :
    outcome (buildName remaining isPartialName result) =
      result ++ remaining ++ if isPartialName then ['.'] else [] := by
  by_cases empty : remaining = [] <;> cases isPartialName <;> simp [buildName, empty]

theorem outcome_buildNames (insIds : List Text) (remaining : Text) (isPartialName : Bool) (list names : List Text) :
    outcome (buildNames insIds remaining isPartialName list names) =
      collectNames insIds remaining isPartialName list names := by
  induction list generalizing names with
  | nil => rfl
  | cons aliasName rest ih =>
    rw [buildNames, collectNames, outcome_bind, outcome_buildAlias]
    cases replaceInstanceIds aliasName insIds with
    | none => exact ih names
    | some result =>
      by_cases long : remaining ≠ [] ∧ result.length + remaining.length > nameLength
      next => simp only [if_pos long, outcome_pure]
      next => simp only [if_neg long, outcome_bind, outcome_buildName, ih]

theorem outcome_buildAliases (tree : AliasTree) (name : Text) :
    outcome (buildAliases tree name) = findAliases tree name := by
  rw [buildAliases, findAliases, ← Option.bind_assoc]
  cases (tcAllocate '.' name).bind fun nameTokens => lookupAliasNode nameTokens [] tree with
  | none => rfl
  | some found =>
    rw [outcome_bind, outcome_buildRemaining, Option.bind_some]
    cases appendRemaining [] found.rest with
    | none => rfl
    | some remaining =>
      rw [Option.bind_some]
      dsimp only
      split_ifs
      · rfl
      · exact outcome_buildNames found.insIds remaining _ found.aliasList []

theorem not_isEmpty_aliasList {nameTokens insIds : List Text} {tree : AliasTree} {found : Found}
    (looked : lookupAliasNode nameTokens insIds tree = some found) : ¬ stringSListIsEmpty found.aliasList := by
  induction nameTokens generalizing insIds tree with
  | nil => cases looked
  | cons token rest ih =>
    rw [lookupAliasNode] at looked
    cases child : tree.findChild (childName token) with
    | none => simp [child] at looked
    | some node =>
      obtain ⟨lists, below⟩ := node
      simp only [child] at looked
      generalize (if isNameInsIdentifier token = true then insIds ++ [token] else insIds) = collected at looked
      by_cases stops : ¬ stringSListIsEmpty lists.aliases ∨ (rest = [] ∧ ¬ stringSListIsEmpty lists.strictAliases)
      · rw [if_pos stops] at looked
        obtain rfl := Option.some.inj looked
        by_cases plain : stringSListIsEmpty lists.aliases
        · simpa [Found.aliasList, plain] using (stops.resolve_left (not_not_intro plain)).2
        · simp [Found.aliasList, plain]
      · rw [if_neg stops] at looked
        exact ih looked

end Lookup

section Lengths

-- How long a string of a length gets by a piece, of which what does not fit is cut.
def addLength (length piece : Nat) : Nat := min (length + piece) nameLength

def grownLength (insIds : List Text) : List Text → List Text → Nat → Option Nat
  | [], _, length => some length
  | token :: rest, left, length =>
    if ¬ isQueueEmpty insIds ∧ token = placeholder then
      match left with
      | [] => none
      | insId :: others => grownLength insIds rest others (addLength length (insId.length + 1))
    else grownLength insIds rest left (addLength length (if length = 0 then token.length else token.length + 1))

def aliasLength (insIds : List Text) (aliasName : Text) : Option Nat :=
  (tcAllocate '.' aliasName).bind fun aliasTokens => grownLength insIds aliasTokens insIds 0

def restLength (rest : List Text) : Nat := (rest.map fun token => token.length + 1).sum

def lookupLengths (found : Found) : List Nat :=
  ((found.aliasList.filterMap (aliasLength found.insIds)).map (· + restLength found.rest)).takeWhile (· ≤ nameLength)

def NoRoomForDot (tree : AliasTree) (name : Text) : Prop :=
  name.getLast? = some '.' ∧ ∃ nameTokens found, tcAllocate '.' name = some nameTokens ∧
    lookupAliasNode nameTokens [] tree = some found ∧ nameLength ∈ lookupLengths found

variable {result remaining : Text}

theorem length_printPiece (result piece : Text) :
    (printPiece result piece).length = addLength result.length piece.length := by
  rw [printPiece, addLength, List.length_take, List.length_append, Nat.min_comm]

theorem addLength_le (length piece : Nat) : addLength length piece ≤ nameLength := Nat.min_le_right _ _

theorem inBuffer_of_le {string : Text} (within : string.length ≤ nameLength) : InBuffer string :=
  Nat.succ_le_succ within

theorem length_printPiece_le (result piece : Text) : (printPiece result piece).length ≤ nameLength := by
  rw [length_printPiece]
  exact addLength_le result.length piece.length

theorem allWritten_buildTokens (insIds list left : List Text) (result : Text) :
    AllWritten InBuffer (buildTokens insIds list left result) := by
  induction list generalizing left result with
  | nil => exact allWritten_pure _
  | cons token rest ih =>
    have step (piece : Text) (others : List Text) :
        AllWritten InBuffer (do
          let next ← recorded (printPiece result piece)
          buildTokens insIds rest others next) := by
      rw [allWritten_bind, allWritten_recorded]
      exact ⟨inBuffer_of_le (length_printPiece_le result piece), ih others _⟩
    by_cases filled : ¬ isQueueEmpty insIds ∧ token = placeholder
    next =>
      cases left with
      | nil =>
        simp only [buildTokens, if_pos filled]
        exact allWritten_pure _
      | cons insId others =>
        simp only [buildTokens, if_pos filled]
        exact step ('.' :: insId) others
    next =>
      simp only [buildTokens, if_neg filled]
      exact step _ left

theorem length_replaceTokens (insIds list left : List Text) (result : Text) :
    (replaceTokens insIds list left result).map List.length = grownLength insIds list left result.length := by
  induction list generalizing left result with
  | nil => rfl
  | cons token rest ih =>
    by_cases filled : ¬ isQueueEmpty insIds ∧ token = placeholder
    next =>
      cases left with
      | nil => simp only [replaceTokens, grownLength, if_pos filled, Option.map_none]
      | cons insId others =>
        simp only [replaceTokens, grownLength, if_pos filled, ih, length_printPiece, List.length_cons]
    next =>
      simp only [replaceTokens, grownLength, if_neg filled, ih, length_printPiece, List.length_eq_zero_iff]
      split_ifs <;> rfl

theorem grownLength_le (insIds list left : List Text) {length grown : Nat} (within : length ≤ nameLength)
    (done : grownLength insIds list left length = some grown) : grown ≤ nameLength := by
  induction list generalizing left length with
  | nil =>
    obtain rfl := Option.some.inj done
    exact within
  | cons token rest ih =>
    by_cases filled : ¬ isQueueEmpty insIds ∧ token = placeholder
    next =>
      cases left with
      | nil => simp only [grownLength, if_pos filled, reduceCtorEq] at done
      | cons insId others =>
        simp only [grownLength, if_pos filled] at done
        exact ih others (addLength_le _ _) done
    next =>
      simp only [grownLength, if_neg filled] at done
      exact ih left (addLength_le _ _) done

theorem length_replaceInstanceIds (aliasName : Text) (insIds : List Text) :
    (replaceInstanceIds aliasName insIds).map List.length = aliasLength insIds aliasName := by
  rw [replaceInstanceIds, aliasLength]
  cases tcAllocate '.' aliasName with
  | none => rfl
  | some aliasTokens => exact length_replaceTokens insIds aliasTokens insIds []

theorem length_replaceInstanceIds_le {aliasName : Text} {insIds : List Text}
    (done : replaceInstanceIds aliasName insIds = some result) : result.length ≤ nameLength := by
  have length := length_replaceInstanceIds aliasName insIds
  rw [done, aliasLength] at length
  obtain ⟨aliasTokens, _, grown⟩ := Option.bind_eq_some_iff.mp length.symm
  exact grownLength_le insIds aliasTokens insIds (Nat.zero_le _) grown

theorem allWritten_buildAlias (aliasName : Text) (insIds : List Text) :
    AllWritten InBuffer (buildAlias aliasName insIds) := by
  unfold buildAlias
  cases tcAllocate '.' aliasName with
  | none => exact allWritten_pure _
  | some aliasTokens => exact allWritten_buildTokens insIds aliasTokens insIds []

theorem allWritten_buildRemaining (list : List Text) : AllWritten InBuffer (buildRemaining remaining list) := by
  induction list generalizing remaining with
  | nil => exact allWritten_pure _
  | cons token rest ih =>
    rw [buildRemaining]
    split_ifs with room
    next =>
      simp only [allWritten_bind, allWritten_recorded, outcome_recorded]
      refine ⟨inBuffer_of_le ?_, inBuffer_of_le ?_, ih⟩
      all_goals
        simp only [List.length_append, List.length_singleton, nameLength] at room ⊢
        omega
    next => exact allWritten_pure _

theorem length_appendRemaining {list : List Text} {whole : Text} (done : appendRemaining remaining list = some whole) :
    whole.length = remaining.length + restLength list := by
  induction list generalizing remaining with
  | nil =>
    obtain rfl := Option.some.inj done
    rfl
  | cons token rest ih =>
    rw [appendRemaining] at done
    split_ifs at done
    rw [ih done, restLength, restLength, List.map_cons, List.sum_cons, List.length_append, List.length_cons]
    omega

theorem appendRemaining_isSome {list : List Text} (room : remaining.length + restLength list ≤ nameLength) :
    (appendRemaining remaining list).isSome = true := by
  induction list generalizing remaining with
  | nil => rfl
  | cons token rest ih =>
    rw [restLength, List.map_cons, List.sum_cons] at room
    have here : remaining.length + token.length ≤ nameLength - 1 := by
      simp only [nameLength] at room ⊢
      omega
    rw [appendRemaining, if_pos here]
    refine ih ?_
    rw [List.length_append, List.length_cons, restLength]
    omega

theorem allWritten_buildName (room : result.length + remaining.length ≤ nameLength) (isPartialName : Bool) :
    AllWritten InBuffer (buildName remaining isPartialName result) ↔
      ¬ (isPartialName = true ∧ result.length + remaining.length = nameLength) := by
  have whole : InBuffer (result ++ remaining) := inBuffer_of_le (by rw [List.length_append]; exact room)
  have dotted (string : Text) : InBuffer (string ++ ['.']) ↔ string.length < nameLength := by
    simp only [InBuffer, bufferSize, List.length_append, List.length_singleton]
    omega
  by_cases empty : remaining = [] <;> cases isPartialName <;>
    simp only [buildName, empty, if_true, if_false, Bool.false_eq_true, allWritten_bind, allWritten_pure,
      allWritten_recorded, outcome_pure, outcome_recorded, dotted, List.length_append, List.length_nil, whole, true_and,
      false_and, not_false_eq_true] at room ⊢ <;>
    omega

theorem allWritten_buildNames (insIds : List Text) (isPartialName : Bool) (list names : List Text) :
    AllWritten InBuffer (buildNames insIds remaining isPartialName list names) ↔
      ¬ (isPartialName = true ∧ nameLength ∈
        ((list.filterMap (aliasLength insIds)).map (· + remaining.length)).takeWhile (· ≤ nameLength)) := by
  induction list generalizing names with
  | nil => simp [buildNames]
  | cons aliasName rest ih =>
    have length := length_replaceInstanceIds aliasName insIds
    rw [buildNames, allWritten_bind, outcome_buildAlias]
    simp only [allWritten_buildAlias, true_and]
    cases built : replaceInstanceIds aliasName insIds with
    | none =>
      rw [built, Option.map_none] at length
      rw [List.filterMap_cons_none length.symm]
      exact ih names
    | some result =>
      rw [built, Option.map_some] at length
      have within := length_replaceInstanceIds_le built
      rw [List.filterMap_cons_some length.symm, List.map_cons, List.takeWhile_cons]
      by_cases room : result.length + remaining.length ≤ nameLength
      next =>
        have short : ¬ (remaining ≠ [] ∧ result.length + remaining.length > nameLength) := fun long => by omega
        have same : nameLength = result.length + remaining.length ↔ result.length + remaining.length = nameLength :=
          eq_comm
        simp only [if_neg short, allWritten_bind, allWritten_buildName room, ih, room, decide_true, if_true,
          List.mem_cons, same]
        tauto
      next =>
        have long : remaining ≠ [] ∧ result.length + remaining.length > nameLength := by
          refine ⟨?_, by omega⟩
          rintro rfl
          exact room within
        simp only [if_pos long, allWritten_pure, room, decide_false, Bool.false_eq_true, if_false, List.not_mem_nil,
          and_false, not_false_eq_true]

theorem allWritten_buildAliases (tree : AliasTree) (name : Text) :
    AllWritten InBuffer (buildAliases tree name) ↔ ¬ NoRoomForDot tree name := by
  unfold buildAliases NoRoomForDot
  cases looked : (tcAllocate '.' name).bind fun nameTokens => lookupAliasNode nameTokens [] tree with
  | none =>
    refine iff_of_true (allWritten_pure _) ?_
    rintro ⟨_, nameTokens, found, chain, node, _⟩
    rw [chain, Option.bind_some, node] at looked
    cases looked
  | some found =>
    obtain ⟨nameTokens, chain, node⟩ := Option.bind_eq_some_iff.mp looked
    have unique : (∃ nameTokens found, tcAllocate '.' name = some nameTokens ∧
        lookupAliasNode nameTokens [] tree = some found ∧ nameLength ∈ lookupLengths found) ↔
          nameLength ∈ lookupLengths found := by
      refine ⟨?_, fun member => ⟨nameTokens, found, chain, node, member⟩⟩
      rintro ⟨otherTokens, other, otherChain, otherNode, member⟩
      obtain rfl := Option.some.inj (chain.symm.trans otherChain)
      obtain rfl := Option.some.inj (node.symm.trans otherNode)
      exact member
    simp only [allWritten_bind, allWritten_buildRemaining, true_and, outcome_buildRemaining, unique]
    cases appended : appendRemaining [] found.rest with
    | none =>
      have long : nameLength < restLength found.rest := by
        by_contra room
        have present := @appendRemaining_isSome [] found.rest (by simpa using room)
        rw [appended] at present
        cases present
      refine iff_of_true (allWritten_pure _) ?_
      rintro ⟨_, member⟩
      obtain ⟨length, _, same⟩ := List.mem_map.mp (List.takeWhile_subset _ member)
      omega
    | some remaining =>
      have length := length_appendRemaining appended
      rw [List.length_nil, Nat.zero_add] at length
      simp only [if_neg (not_isEmpty_aliasList node), allWritten_buildNames, length, decide_eq_true_iff]
      rfl

end Lengths

namespace AliasManager

variable (mgr : AliasManager) (paramName : Text)

def buildInternalNames : Built (Option (List Text)) := buildAliases mgr.extTree paramName

def buildExternalName : Built (Option Text) := do
  let names ← buildAliases mgr.intTree paramName
  pure (names.bind List.head?)

theorem outcome_buildInternalNames : outcome (mgr.buildInternalNames paramName) = mgr.getInternalNames paramName :=
  outcome_buildAliases mgr.extTree paramName

theorem outcome_buildExternalName : outcome (mgr.buildExternalName paramName) = mgr.getExternalName paramName := by
  rw [buildExternalName, outcome_bind, outcome_pure, outcome_buildAliases]
  rfl

end AliasManager

def fullName : Text := List.replicate 100 'a' ++ '.' :: List.replicate 155 'b'

theorem length_fullName : fullName.length = nameLength := by
  rw [fullName, List.length_append, List.length_cons, List.length_replicate, List.length_replicate]
  rfl

-- The internal name takes all of the buffer, and the dot of the partial name comes behind it.
def fullEntry : AliasEntry where
  internal := fullName
  external := ['E']
  bStrict := false
  internalFits := Nat.le_of_eq length_fullName
  externalFits := by decide

end CcspCommon.AliasMgr
