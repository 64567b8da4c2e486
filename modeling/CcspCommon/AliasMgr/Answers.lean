import CcspCommon.AliasMgr.Mappings

set_option autoImplicit false

namespace CcspCommon.AliasMgr

open CcspCommon.Shared
open CcspCommon.AnscPlatform (tcAllocate)

section Replacing

def fill : List Text → List Text → List Text
  | [], _ => []
  | token :: rest, [] => token :: fill rest []
  | token :: rest, insId :: others =>
    if token = placeholder then insId :: fill rest others else token :: fill rest (insId :: others)

@[simp] theorem fill_nil (list : List Text) : fill list [] = list := by
  induction list with
  | nil => rfl
  | cons token rest ih => rw [fill, ih]

def Enough (insIds left list : List Text) : Prop :=
  (insIds = [] ∧ left = []) ∨ (¬ isQueueEmpty insIds ∧ list.count placeholder ≤ left.length)

theorem Enough.isQueueEmpty_iff {insIds left list : List Text} (enough : Enough insIds left list) :
    isQueueEmpty insIds ↔ insIds = [] := by
  rcases enough with ⟨rfl, -⟩ | ⟨some, -⟩
  · exact iff_of_true rfl rfl
  · refine iff_of_false some ?_
    rintro rfl
    exact some rfl

theorem printPiece_of_fits {result piece : Text} (fits : result.length + piece.length ≤ nameLength) :
    printPiece result piece = result ++ piece := by
  rw [printPiece, List.take_of_length_le]
  rwa [List.length_append]

theorem printPiece_next {lead token : Text} {done more : List Text} (nonempty : done ≠ [])
    (fits : lead.length + (joinTokens '.' (done ++ token :: more)).length ≤ nameLength) :
    printPiece (lead ++ joinTokens '.' done) ('.' :: token) = lead ++ joinTokens '.' (done ++ [token]) := by
  have longer := length_joinTokens_append '.' (done ++ [token]) more
  have joined : joinTokens '.' (done ++ [token]) = joinTokens '.' done ++ '.' :: token := by
    rw [joinTokens_append, if_neg nonempty, if_neg (by simp)]
    rfl
  rw [List.append_assoc, List.singleton_append, joined, List.length_append] at longer
  rw [printPiece_of_fits, joined, List.append_assoc]
  rw [List.length_append]
  omega

theorem replaceTokens_filled (insIds list : List Text) {left done : List Text} {lead : Text}
    (enough : Enough insIds left list) (nonempty : done ≠ []) (printed : lead ++ joinTokens '.' done ≠ [])
    (fits : lead.length + (joinTokens '.' (done ++ fill list left)).length ≤ nameLength) :
    replaceTokens insIds list left (lead ++ joinTokens '.' done) =
      some (lead ++ joinTokens '.' (done ++ fill list left)) := by
  induction list generalizing left done with
  | nil => simp [replaceTokens, fill]
  | cons token rest ih =>
    -- one more piece is printed, and the rest follows it
    have step {piece : Text} {others : List Text} (next : Enough insIds others rest)
        (filled : fill (token :: rest) left = piece :: fill rest others) :
        replaceTokens insIds rest others (printPiece (lead ++ joinTokens '.' done) ('.' :: piece)) =
          some (lead ++ joinTokens '.' (done ++ fill (token :: rest) left)) := by
      rw [filled] at fits ⊢
      rw [printPiece_next nonempty fits, ih next (by simp) (by simp [joinTokens_append, nonempty])]
      · simp
      · simpa using fits
    rcases enough with ⟨rfl, rfl⟩ | ⟨some, count⟩
    · have none : isQueueEmpty [] := rfl
      simp only [replaceTokens, none, not_true_eq_false, false_and, if_false, printed]
      exact step (.inl ⟨rfl, rfl⟩) rfl
    · by_cases isPlaceholder : token = placeholder
      · rw [isPlaceholder, List.count_cons_self] at count
        cases left with
        | nil => simp at count
        | cons insId others =>
          simp only [replaceTokens, isPlaceholder, some, not_false_eq_true, and_self, if_true]
          rw [← isPlaceholder]
          exact step (.inr ⟨some, by simpa using count⟩) (by simp [fill, isPlaceholder])
      · rw [List.count_cons_of_ne isPlaceholder] at count
        simp only [replaceTokens, isPlaceholder, and_false, if_false, printed]
        refine step (.inr ⟨some, count⟩) ?_
        cases left <;> simp [fill, isPlaceholder]

def leadOf (list insIds : List Text) : Text :=
  if insIds ≠ [] ∧ list.head? = some placeholder then ['.'] else []

theorem replaceInstanceIds_filled {aliasName : Text} {insIds : List Text}
    (short : aliasName.length ≤ nameLength)
    (enough : Enough insIds insIds (tokens '.' aliasName))
    (fits : (leadOf (tokens '.' aliasName) insIds).length +
      (joinTokens '.' (fill (tokens '.' aliasName) insIds)).length ≤ nameLength) :
    replaceInstanceIds aliasName insIds = some (leadOf (tokens '.' aliasName) insIds ++
      joinTokens '.' (fill (tokens '.' aliasName) insIds)) := by
  have proper := tokens_isToken '.' aliasName
  rw [replaceInstanceIds, tcAllocate_of_fits short, Option.bind_some]
  generalize tokens '.' aliasName = list at *
  cases list with
  | nil => simp [replaceTokens, fill, leadOf, joinTokens]
  | cons token rest =>
    by_cases replaced : insIds ≠ [] ∧ token = placeholder
    · obtain ⟨some, rfl⟩ := replaced
      obtain ⟨insId, others, rfl⟩ := List.exists_cons_of_ne_nil some
      have lead : leadOf (placeholder :: rest) (insId :: others) = ['.'] := by simp [leadOf]
      have filled : fill (placeholder :: rest) (insId :: others) = [insId] ++ fill rest others := by
        simp [fill]
      rw [lead, filled] at fits ⊢
      have first : printPiece [] ('.' :: insId) = ['.'] ++ joinTokens '.' [insId] := by
        have whole := length_joinTokens_append '.' [insId] (fill rest others)
        simp only [joinTokens, List.length_cons, List.length_nil] at whole fits
        rw [printPiece_of_fits]
        · rfl
        · simp only [List.length_cons, List.length_nil]
          omega
      have next : Enough (insId :: others) others rest := by
        rcases enough with ⟨none, -⟩ | ⟨queued, count⟩
        · exact absurd none some
        · exact .inr ⟨queued, by simpa using count⟩
      simp only [replaceTokens, enough.isQueueEmpty_iff, reduceCtorEq, not_false_eq_true, and_self, if_true, first]
      exact replaceTokens_filled _ rest next (by simp) (by simp) fits
    · have lead : leadOf (token :: rest) insIds = [] := by simpa [leadOf] using replaced
      have filled : fill (token :: rest) insIds = [token] ++ fill rest insIds := by
        cases insIds with
        | nil => simp
        | cons insId others =>
          have literal : token ≠ placeholder := by simpa using replaced
          simp [fill, literal]
      rw [lead, filled] at fits ⊢
      have first : printPiece [] token = [] ++ joinTokens '.' [token] := by
        have whole := length_joinTokens_append '.' [token] (fill rest insIds)
        simp only [joinTokens, List.length_nil] at whole fits
        rw [printPiece_of_fits]
        · rfl
        · simp only [List.length_nil]
          omega
      have next : Enough insIds insIds rest := by
        rcases enough with nothing | ⟨queued, count⟩
        · exact .inl nothing
        · refine .inr ⟨queued, ?_⟩
          have some : insIds ≠ [] := fun none => queued (by rw [none]; rfl)
          rwa [List.count_cons_of_ne fun same => replaced ⟨some, same⟩] at count
      have literal : ¬ (¬ isQueueEmpty insIds ∧ token = placeholder) := by
        rwa [enough.isQueueEmpty_iff]
      simp only [replaceTokens, if_neg literal, if_true, first]
      exact replaceTokens_filled _ rest next (by simp) (by simpa [joinTokens] using (proper token (by simp)).1) fits

theorem replaceInstanceIds_nil {aliasName : Text} (short : aliasName.length ≤ nameLength) :
    replaceInstanceIds aliasName [] = some (joinTokens '.' (tokens '.' aliasName)) := by
  have whole := (length_joinTokens_tokens '.' aliasName).trans short
  have spelled := replaceInstanceIds_filled short (.inl ⟨rfl, rfl⟩ : Enough [] [] _)
  simpa [leadOf, whole] using spelled

theorem replaceInstanceIds_congr {aliasName other : Text} (same : tokens '.' aliasName = tokens '.' other)
    (insIds : List Text) : replaceInstanceIds aliasName insIds = replaceInstanceIds other insIds := by
  simp only [replaceInstanceIds, tcAllocate, same]

end Replacing

section Remaining

def remainingText (rest : List Text) : Text := rest.flatMap ('.' :: ·)

theorem appendRemaining_eq (rest : List Text) {remaining : Text}
    (fits : (remaining ++ remainingText rest).length ≤ nameLength) :
    appendRemaining remaining rest = some (remaining ++ remainingText rest) := by
  induction rest generalizing remaining with
  | nil => simp [appendRemaining, remainingText]
  | cons token rest ih =>
    have split : remaining ++ remainingText (token :: rest) =
        remaining ++ '.' :: token ++ remainingText rest := by simp [remainingText]
    rw [split] at fits ⊢
    have room : remaining.length + token.length ≤ nameLength - 1 := by
      simp only [List.length_append, List.length_cons] at fits
      omega
    rw [appendRemaining, if_pos room, ih fits]

theorem joinTokens_remainingText {list : List Text} (nonempty : list ≠ []) (rest : List Text) :
    joinTokens '.' (list ++ rest) = joinTokens '.' list ++ remainingText rest := by
  induction rest generalizing list with
  | nil => simp [remainingText]
  | cons token rest ih =>
    have split : list ++ token :: rest = (list ++ [token]) ++ rest := by simp
    rw [split, ih (by simp), joinTokens_append, if_neg nonempty, if_neg (by simp)]
    simp [joinTokens, remainingText]

end Remaining

section Answers

def namesOf (isPartialName : Bool) (found : Found) : Option (List Text) :=
  (appendRemaining [] found.rest).bind fun remaining =>
    if stringSListIsEmpty found.aliasList then none
    else collectNames found.insIds remaining isPartialName found.aliasList []

theorem findAliases_eq (tree : AliasTree) (name : Text) :
    findAliases tree name = (tcAllocate '.' name).bind fun nameTokens =>
      (firstHit tree.listsAt [] nameTokens []).bind (namesOf (name.getLast? = some '.')) := by
  rw [findAliases]
  congr
  funext nameTokens
  rw [lookupAliasNode_eq]
  rfl

def SameNames (first second : Option (List Text)) : Prop :=
  ∀ name, name ∈ first.getD [] ↔ name ∈ second.getD []

def SameTokens (first second : List Text) : Prop :=
  ∀ target, (∃ aliasName ∈ first, tokens '.' aliasName = target) ↔
    ∃ aliasName ∈ second, tokens '.' aliasName = target

theorem SameTokens.symm {first second : List Text} (same : SameTokens first second) :
    SameTokens second first := fun target => (same target).symm

theorem SameTokens.exists {first second : List Text} (same : SameTokens first second) {aliasName : Text}
    (member : aliasName ∈ first) : ∃ other ∈ second, tokens '.' other = tokens '.' aliasName :=
  (same _).mp ⟨aliasName, member, rfl⟩

structure Found.Alike (found other : Found) : Prop where
  insIds : found.insIds = other.insIds
  rest : found.rest = other.rest
  listed : stringSListIsEmpty found.aliasList ↔ stringSListIsEmpty other.aliasList
  aliasList : SameTokens found.aliasList other.aliasList

theorem Found.Alike.symm {found other : Found} (alike : found.Alike other) : other.Alike found :=
  ⟨alike.insIds.symm, alike.rest.symm, alike.listed.symm, alike.aliasList.symm⟩

theorem mem_namesOf_of_alike {found other : Found} (alike : found.Alike other) {isPartialName : Bool}
    {name : Text} (member : name ∈ (namesOf isPartialName found).getD []) :
    name ∈ (namesOf isPartialName other).getD [] := by
  rw [namesOf] at member ⊢
  rw [← alike.rest, ← alike.insIds]
  cases left : appendRemaining [] found.rest with
  | none => simp [left] at member
  | some remaining =>
    rw [left, Option.bind_some] at member
    rw [Option.bind_some]
    by_cases empty : stringSListIsEmpty found.aliasList
    · simp [empty] at member
    rw [if_neg empty, mem_collectNames] at member
    rw [if_neg fun none => empty (alike.listed.mpr none), mem_collectNames]
    obtain ⟨room, old | ⟨aliasName, present, result, replaced, rfl⟩⟩ := member
    · cases old
    · constructor
      · intro aliasName present result replaced
        obtain ⟨similar, member, same⟩ := alike.aliasList.symm.exists present
        rw [← replaceInstanceIds_congr same] at replaced
        exact room similar member result replaced
      · obtain ⟨similar, member, same⟩ := alike.aliasList.exists present
        rw [← replaceInstanceIds_congr same] at replaced
        exact .inr ⟨similar, member, result, replaced, rfl⟩

theorem sameNames_namesOf {found other : Found} (alike : found.Alike other) (isPartialName : Bool) :
    SameNames (namesOf isPartialName found) (namesOf isPartialName other) :=
  fun _ => ⟨mem_namesOf_of_alike alike, mem_namesOf_of_alike alike.symm⟩

end Answers

end CcspCommon.AliasMgr
