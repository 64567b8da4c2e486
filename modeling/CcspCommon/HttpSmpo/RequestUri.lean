import CcspCommon.HttpMboChunked.ChunkLine

set_option autoImplicit false

namespace CcspCommon.HttpSmpo

open CcspCommon.HttpMboChunked

section Model

def maxPathLevelNumber : Nat := 16

def maxPathNameSize : Nat := 128

def maxUriQuerySize : Nat := 4096

inductive UriType
  | reserved | asterisk | absoluteUri | relativeUri | absPath | authority
  deriving DecidableEq

structure RequestUri where
  type : UriType
  pathLevel : Nat
  pathArray : List (List UInt8)
  queryParams : List UInt8
  rows : pathArray.length = maxPathLevelNumber

def slash : UInt8 := 0x2F

def questionMark : UInt8 := 0x3F

def copyHeaderString (pString pBuf : List UInt8) (ulBufSize : Nat) : List UInt8 :=
  if pString = [] then pBuf
  else if pString.length ≥ ulBufSize then pString.take (ulBufSize - 1)
  else pString

-- Writing at `PathArray[PathLevel]` and counting the level; there is no result outside of the array.
def RequestUri.pushLevel (uri : RequestUri) (text : List UInt8) : Option RequestUri :=
  if uri.pathLevel < maxPathLevelNumber then
    some { uri with
      pathLevel := uri.pathLevel + 1
      pathArray := uri.pathArray.set uri.pathLevel text
      rows := (List.length_set ..).trans uri.rows }
  else none

def RequestUri.row (uri : RequestUri) : List UInt8 := uri.pathArray.getD uri.pathLevel []

def parseSegments (uri : RequestUri) (path : List UInt8) : Option RequestUri :=
  match _found : memchr slash path with
  | none =>
    -- for an empty path the level is counted down and up again
    if path = [] then some uri else uri.pushLevel (copyHeaderString path uri.row maxPathNameSize)
  | some pNext =>
    let segment := path.take (path.length - pNext.length)
    let pushed := if segment = [] then uri.pushLevel [slash]
      else uri.pushLevel (copyHeaderString segment uri.row maxPathNameSize)
    pushed.bind fun uri =>
      if pNext.length = 1 then uri.pushLevel [slash]
      else if uri.pathLevel ≥ maxPathLevelNumber - 1 then some uri
      else parseSegments uri (pNext.drop 1)
termination_by path.length
decreasing_by
  obtain ⟨front, rest, same, -, shape⟩ := memchr_split _found
  rw [shape, same]
  simp only [List.drop_succ_cons, List.drop_zero, List.length_append, List.length_cons]
  omega

def parseRelPath (uri : RequestUri) (pBuf : List UInt8) : Option RequestUri :=
  match memchr questionMark pBuf with
  | none => parseSegments uri pBuf
  | some pQuery => (parseSegments uri (pBuf.take (pBuf.length - pQuery.length))).map fun uri =>
    { uri with queryParams := copyHeaderString (pQuery.drop 1) uri.queryParams maxUriQuerySize }

def parseAbsPath (uri : RequestUri) (pBuf : List UInt8) : Option (Bool × RequestUri) :=
  match pBuf with
  | [] => some (false, uri)
  | first :: pRelPath =>
    if first ≠ slash then some (false, uri)
    else
      (parseRelPath { uri with
        pathLevel := 1
        pathArray := uri.pathArray.set 0 [slash]
        rows := (List.length_set ..).trans uri.rows } pRelPath).map fun uri => (true, { uri with type := .absPath })

end Model

section Purpose

def pathSegments (relPath : List UInt8) : List (List UInt8) :=
  let path := relPath.takeWhile (· ≠ questionMark)
  if path = [] then [] else path.splitOn slash

def levelText (segment : List UInt8) : List UInt8 :=
  if segment = [] then [slash] else segment.take (maxPathNameSize - 1)

/-- The segments for which there are levels left: the last level is only used for the empty segment behind a
trailing slash. -/
def recorded (levels : Nat) (segments : List (List UInt8)) : List (List UInt8) :=
  if segments.length = levels + 1 ∧ segments.getLast? = some [] then segments else segments.take levels

def RequestUri.levels (uri : RequestUri) : List (List UInt8) := uri.pathArray.take uri.pathLevel

end Purpose

section Levels

theorem copyHeaderString_row {text : List UInt8} (nonempty : text ≠ []) (row : List UInt8) :
    copyHeaderString text row maxPathNameSize = levelText text := by
  rw [copyHeaderString, if_neg nonempty, levelText, if_neg nonempty]
  split
  next => rfl
  next short => exact (List.take_of_length_le (by omega)).symm

theorem pushLevel_levels (uri : RequestUri) {text : List UInt8} (free : uri.pathLevel < maxPathLevelNumber) :
    ∃ next, uri.pushLevel text = some next ∧ next.pathLevel = uri.pathLevel + 1 ∧
      next.levels = uri.levels ++ [text] := by
  refine ⟨_, if_pos free, rfl, ?_⟩
  have inside : uri.pathLevel < uri.pathArray.length := by
    rw [uri.rows]
    exact free
  simp only [RequestUri.levels]
  rw [List.take_add_one, List.getElem?_set_self inside, Option.toList_some, List.take_set_of_le (Nat.le_refl _)]

theorem segments_slash {segment rest : List UInt8} (free : slash ∉ segment) :
    (segment ++ slash :: rest).splitOn slash = segment :: rest.splitOn slash :=
  List.splitOn_append_cons_self_of_not_mem free rest

theorem recorded_cons {levels : Nat} (segment : List UInt8) {segments : List (List UInt8)} (nonempty : segments ≠ []) :
    recorded (levels + 1) (segment :: segments) = segment :: recorded levels segments := by
  rw [recorded, recorded, List.length_cons, List.getLast?_cons_of_ne_nil nonempty]
  by_cases trailing : segments.length = levels + 1 ∧ segments.getLast? = some []
  next => rw [if_pos trailing, if_pos ⟨congrArg (· + 1) trailing.1, trailing.2⟩]
  next =>
    rw [if_neg trailing, if_neg fun both => trailing ⟨Nat.succ.inj both.1, both.2⟩]
    rfl

theorem recorded_nil (levels : Nat) : recorded levels [] = [] := by
  rw [recorded, if_neg fun both => Nat.succ_ne_zero levels both.1.symm, List.take_nil]

theorem recorded_single (levels : Nat) (segment : List UInt8) : recorded (levels + 1) [segment] = [segment] := by
  rw [recorded, if_neg fun both => Nat.succ_ne_zero levels (Nat.succ.inj both.1).symm, List.take_succ_cons,
    List.take_nil]

theorem recorded_trailing (levels : Nat) (segment : List UInt8) :
    recorded (levels + 1) [segment, []] = [segment, []] := by
  cases levels with
  | zero => rfl
  | succ levels => rw [recorded_cons segment (List.cons_ne_nil _ _), recorded_single]

theorem recorded_full {rest : List UInt8} (nonempty : rest ≠ []) : recorded 0 (rest.splitOn slash) = [] := by
  refine if_neg fun ⟨single, last⟩ => nonempty ?_
  obtain ⟨segment, only⟩ := List.length_eq_one_iff.mp single
  rw [only, List.getLast?_singleton, Option.some.injEq] at last
  have joined : [slash].intercalate (rest.splitOn slash) = rest := List.intercalate_splitOn slash
  rw [only, last] at joined
  exact joined.symm

end Levels

section Runs

theorem parseSegments_last (uri : RequestUri) {path : List UInt8} (free : slash ∉ path) :
    parseSegments uri path = if path = [] then some uri else uri.pushLevel (levelText path) := by
  have absent : memchr slash path = none := memchr_eq_none.mpr (List.count_eq_zero.mpr free)
  rw [parseSegments]
  split
  next =>
    split
    next => rfl
    next nonempty => rw [copyHeaderString_row nonempty]
  next pNext found => exact absurd (found.symm.trans absent) (Option.some_ne_none pNext)

theorem parseSegments_slash (uri : RequestUri) {segment : List UInt8} (free : slash ∉ segment) (rest : List UInt8) :
    parseSegments uri (segment ++ slash :: rest) = (uri.pushLevel (levelText segment)).bind fun uri =>
      if rest = [] then uri.pushLevel [slash]
      else if uri.pathLevel ≥ maxPathLevelNumber - 1 then some uri
      else parseSegments uri rest := by
  have front : (segment ++ slash :: rest).take ((segment ++ slash :: rest).length - (slash :: rest).length) =
      segment := by
    rw [List.length_append, Nat.add_sub_cancel, List.take_left]
  rw [parseSegments]
  split
  next absent => exact absurd ((memchr_here free rest).symm.trans absent) (Option.some_ne_none _)
  next pNext found =>
    obtain rfl := Option.some.inj ((memchr_here free rest).symm.trans found)
    rw [front]
    have pushed : (if segment = [] then uri.pushLevel [slash]
        else uri.pushLevel (copyHeaderString segment uri.row maxPathNameSize)) = uri.pushLevel (levelText segment) := by
      split
      next empty => rw [levelText, if_pos empty]
      next nonempty => rw [copyHeaderString_row nonempty]
    have last : (slash :: rest).length = 1 ↔ rest = [] := by simp
    simp only [pushed, last, List.drop_succ_cons, List.drop_zero]

theorem memchr_none_or_split (wanted : UInt8) (text : List UInt8) :
    wanted ∉ text ∨ ∃ front rest, text = front ++ wanted :: rest ∧ wanted ∉ front := by
  cases found : memchr wanted text with
  | none => exact .inl (List.count_eq_zero.mp (memchr_eq_none.mp found))
  | some later =>
    obtain ⟨front, rest, same, free, -⟩ := memchr_split found
    exact .inr ⟨front, rest, same, free⟩

theorem parseSegments_plain {levels : Nat} {uri : RequestUri} (path : List UInt8) (free : slash ∉ path)
    (space : uri.pathLevel < maxPathLevelNumber) :
    ∃ next, parseSegments uri path = some next ∧ next.pathLevel ≤ maxPathLevelNumber ∧ next.levels = uri.levels ++
      (recorded (levels + 1) (if path = [] then [] else path.splitOn slash)).map levelText := by
  rw [parseSegments_last uri free]
  by_cases empty : path = []
  next =>
    rw [if_pos empty, if_pos empty, recorded_nil]
    exact ⟨uri, rfl, Nat.le_of_lt space, (List.append_nil _).symm⟩
  next =>
    rw [if_neg empty, if_neg empty, List.splitOn_eq_singleton free, recorded_single]
    obtain ⟨next, pushed, level, levels⟩ := @pushLevel_levels uri (levelText path) space
    exact ⟨next, pushed, level ▸ space, levels⟩

theorem parseSegments_trailing {levels : Nat} {uri next : RequestUri} {segment rest : List UInt8} (trailing : rest = [])
    (space : next.pathLevel < maxPathLevelNumber) (before : next.levels = uri.levels ++ [levelText segment]) :
    ∃ last, (if rest = [] then next.pushLevel [slash]
        else if next.pathLevel ≥ maxPathLevelNumber - 1 then some next else parseSegments next rest) = some last ∧
      last.pathLevel ≤ maxPathLevelNumber ∧ last.levels = uri.levels ++
        (recorded (levels + 1) (segment :: rest.splitOn slash)).map levelText := by
  subst trailing
  have split : recorded (levels + 1) (segment :: [].splitOn slash) = [segment, []] := recorded_trailing levels segment
  rw [if_pos rfl, split]
  obtain ⟨last, pushed, level, after⟩ := @pushLevel_levels next [slash] space
  refine ⟨last, pushed, level ▸ space, ?_⟩
  rw [after, before, List.append_assoc]
  rfl

theorem parseSegments_turn {uri : RequestUri} {segment : List UInt8} (free : slash ∉ segment) (rest : List UInt8)
    (space : uri.pathLevel < maxPathLevelNumber) :
    ∃ next : RequestUri, (parseSegments uri (segment ++ slash :: rest) =
        if rest = [] then next.pushLevel [slash]
        else if next.pathLevel ≥ maxPathLevelNumber - 1 then some next
        else parseSegments next rest) ∧
      next.pathLevel = uri.pathLevel + 1 ∧ next.levels = uri.levels ++ [levelText segment] := by
  obtain ⟨next, pushed, level, levels⟩ := @pushLevel_levels uri (levelText segment) space
  refine ⟨next, ?_, level, levels⟩
  rw [parseSegments_slash uri free rest, pushed, Option.bind_some]

theorem parseSegments_step {levels : Nat} {uri : RequestUri} (path : List UInt8)
    (space : uri.pathLevel + 1 < maxPathLevelNumber)
    (later : ∀ (next : RequestUri) (rest : List UInt8), next.pathLevel = uri.pathLevel + 1 → rest ≠ [] →
      ∃ last, (if next.pathLevel ≥ maxPathLevelNumber - 1 then some next else parseSegments next rest) = some last ∧
        last.pathLevel ≤ maxPathLevelNumber ∧
        last.levels = next.levels ++ (recorded levels (rest.splitOn slash)).map levelText) :
    ∃ next, parseSegments uri path = some next ∧ next.pathLevel ≤ maxPathLevelNumber ∧ next.levels = uri.levels ++
      (recorded (levels + 1) (if path = [] then [] else path.splitOn slash)).map levelText := by
  obtain free | ⟨segment, rest, rfl, free⟩ := memchr_none_or_split slash path
  next => exact parseSegments_plain path free (Nat.lt_of_succ_lt space)
  obtain ⟨next, turn, level, levels⟩ := @parseSegments_turn uri segment free rest (Nat.lt_of_succ_lt space)
  rw [turn, if_neg (List.append_ne_nil_of_right_ne_nil _ (List.cons_ne_nil _ _)), segments_slash free]
  by_cases trailing : rest = []
  next => exact parseSegments_trailing trailing (level ▸ space) levels
  next =>
    obtain ⟨last, run, bound, more⟩ := later next rest level trailing
    rw [if_neg trailing, recorded_cons segment (List.splitOn_ne_nil _ _)]
    refine ⟨last, run, bound, ?_⟩
    rw [more, levels, List.map_cons, List.append_assoc, List.singleton_append]

theorem parseSegments_levels {levels : Nat} {uri : RequestUri} (path : List UInt8)
    (left : uri.pathLevel + (levels + 1) = maxPathLevelNumber - 1) :
    ∃ next, parseSegments uri path = some next ∧ next.pathLevel ≤ maxPathLevelNumber ∧ next.levels = uri.levels ++
      (recorded (levels + 1) (if path = [] then [] else path.splitOn slash)).map levelText := by
  have most : maxPathLevelNumber = 16 := rfl
  induction levels generalizing uri path with
  | zero =>
    refine parseSegments_step path (by omega) fun next rest level nonempty => ?_
    rw [if_pos (by omega), recorded_full nonempty]
    exact ⟨next, rfl, by omega, (List.append_nil _).symm⟩
  | succ fewer ih =>
    refine parseSegments_step path (by omega) fun next rest level nonempty => ?_
    have later : next.pathLevel + (fewer + 1) = maxPathLevelNumber - 1 := by omega
    obtain ⟨last, run, bound, levels⟩ := ih rest later
    rw [if_neg nonempty] at levels
    rw [if_neg (by omega)]
    exact ⟨last, run, bound, levels⟩

end Runs

section Paths

def Recorded (limit : List (List UInt8) → List (List UInt8)) (uri : RequestUri) (relPath : List UInt8) : Prop :=
  ∃ next, parseAbsPath uri (slash :: relPath) = some (true, next) ∧ next.pathLevel ≤ maxPathLevelNumber ∧
    next.levels = [slash] :: (limit (pathSegments relPath)).map levelText

theorem takeWhile_question {path : List UInt8} (free : questionMark ∉ path) (query : List UInt8) :
    (path ++ questionMark :: query).takeWhile (· ≠ questionMark) = path := by
  rw [List.takeWhile_append_of_pos fun byte member => decide_eq_true (ne_of_mem_of_not_mem member free),
    List.takeWhile_cons_of_neg (by simp), List.append_nil]

theorem parseRelPath_levels {uri : RequestUri} (root : uri.pathLevel = 1) (pBuf : List UInt8) :
    ∃ next, parseRelPath uri pBuf = some next ∧ next.pathLevel ≤ maxPathLevelNumber ∧
      next.levels = uri.levels ++ (recorded 14 (pathSegments pBuf)).map levelText := by
  have left : uri.pathLevel + (13 + 1) = maxPathLevelNumber - 1 := by rw [root]; rfl
  rw [parseRelPath]
  split
  next absent =>
    have free : questionMark ∉ pBuf := List.count_eq_zero.mp (memchr_eq_none.mp absent)
    have whole : pBuf.takeWhile (· ≠ questionMark) = pBuf :=
      List.takeWhile_eq_self_iff.mpr fun byte member => decide_eq_true (ne_of_mem_of_not_mem member free)
    rw [pathSegments, whole]
    exact parseSegments_levels pBuf left
  next pQuery found =>
    obtain ⟨path, query, rfl, free, rfl⟩ := memchr_split found
    have front : (path ++ questionMark :: query).take
        ((path ++ questionMark :: query).length - (questionMark :: query).length) = path := by
      rw [List.length_append, Nat.add_sub_cancel, List.take_left]
    obtain ⟨next, run, bound, levels⟩ := parseSegments_levels path left
    rw [front, run, pathSegments, takeWhile_question free]
    exact ⟨_, rfl, bound, levels⟩

theorem parseAbsPath_levels (uri : RequestUri) (relPath : List UInt8) :
    ∃ next, parseAbsPath uri (slash :: relPath) = some (true, next) ∧ next.pathLevel ≤ maxPathLevelNumber ∧
      next.levels = [slash] :: (recorded 14 (pathSegments relPath)).map levelText := by
  obtain ⟨next, run, bound, levels⟩ := @parseRelPath_levels { uri with
    pathLevel := 1
    pathArray := uri.pathArray.set 0 [slash]
    rows := (List.length_set ..).trans uri.rows } rfl relPath
  refine ⟨{ next with type := .absPath }, ?_, bound, ?_⟩
  next =>
    rw [parseAbsPath, if_neg (fun other => other rfl), run]
    rfl
  next =>
    have rows : 0 < uri.pathArray.length := by
      rw [uri.rows]
      decide
    have root : (uri.pathArray.set 0 [slash]).take 1 = [[slash]] := by
      rw [List.take_add_one, List.getElem?_set_self rows]
      rfl
    have levels : next.levels = [[slash]] ++ (recorded 14 (pathSegments relPath)).map levelText := by
      rw [levels, ← root]
      rfl
    exact levels

theorem absPath_recorded (uri : RequestUri) (relPath : List UInt8) : Recorded (recorded 14) uri relPath :=
  parseAbsPath_levels uri relPath

def emptyUri : RequestUri := ⟨.reserved, 0, List.replicate 16 [], [], rfl⟩

/-- Fifteen segments, which sixteen levels would hold. -/
theorem absPath_cut_early : ¬ ∀ (uri : RequestUri) (relPath : List UInt8),
    Recorded (List.take (maxPathLevelNumber - 1)) uri relPath := by
  intro every
  let relPath : List UInt8 := [slash].intercalate (List.replicate 15 [0x61])
  obtain ⟨next, run, -, levels⟩ := every emptyUri relPath
  obtain ⟨same, runToo, -, cut⟩ := parseAbsPath_levels emptyUri relPath
  obtain rfl : next = same := congrArg Prod.snd (Option.some.inj (run.symm.trans runToo))
  have lengths := congrArg List.length (levels.symm.trans cut)
  rw [List.length_cons, List.length_cons, List.length_map, List.length_map] at lengths
  exact absurd lengths (by decide)

end Paths

end CcspCommon.HttpSmpo
