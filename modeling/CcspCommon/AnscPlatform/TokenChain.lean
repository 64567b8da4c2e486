import CcspCommon.AnscPlatform.AnscString
import CcspCommon.Shared.Pieces

set_option autoImplicit false

namespace CcspCommon.AnscPlatform

open CcspCommon.Shared

section Scanning

-- `AnscCharInString`; the terminator, for which `none` stands, is found in every string.
def charInString (s : Text) : Option Char → Bool
  | none => true
  | some c => s.contains c

def moveToNextToken (separator : Text) : Text → Text
  | [] => []
  | c :: rest => if charInString separator (some c) then moveToNextToken separator rest else c :: rest

def sizeOfToken (separator : Text) : Nat → Text → Nat
  | 0, _ => 0
  | range + 1, string =>
    if charInString separator string.head? then 0 else sizeOfToken separator range (string.drop 1) + 1

theorem length_moveToNextToken (separator string : Text) :
    (moveToNextToken separator string).length ≤ string.length := by
  induction string with
  | nil => exact Nat.le_refl _
  | cons c rest ih =>
    rw [moveToNextToken]
    split_ifs
    · exact Nat.le_succ_of_le ih
    · exact Nat.le_refl _

-- The loop of `AnscTcAllocate`; there is no chain when a token does not fit into its buffer.
def tcLoop (separator : Text) (ulSizeOfStr : Nat) (string : Text) (ulTokenSize : Nat) : Option (List Text) :=
  if string ≠ [] ∧ ulTokenSize ≠ 0 ∧ ulSizeOfStr - string.length < ulSizeOfStr then
    if ulTokenSize ≥ uriPathSize then none
    else
      let next := moveToNextToken separator (string.drop ulTokenSize)
      (tcLoop separator ulSizeOfStr next (sizeOfToken separator next.length next)).map (string.take ulTokenSize :: ·)
  else some []
termination_by string.length
decreasing_by
  have shorter := length_moveToNextToken separator (string.drop ulTokenSize)
  have some := List.length_pos_iff.mpr (by assumption : string ≠ [] ∧ _).1
  rw [List.length_drop] at shorter
  omega

def tcAllocateScan (separator string : Text) : Option (List Text) :=
  let ulSizeOfStr := string.length
  let string := moveToNextToken separator string
  if string = [] then some []
  else
    let ulTokenSize := sizeOfToken separator string.length string
    if ulTokenSize = 0 then some [] else tcLoop separator ulSizeOfStr string ulTokenSize

end Scanning

section Joining

def terminator : Char := '\x00'

def copyString (string : Text) (ulIndex : Nat) (name : Text) : Option Text :=
  if ulIndex + name.length + 1 ≤ string.length then
    some (string.take ulIndex ++ (name ++ terminator :: string.drop (ulIndex + name.length + 1)))
  else none

def getTokens (separator : Text) : List Text → Text → Nat → Option Text
  | [], string, _ => some string
  | name :: rest, string, ulIndex => do
    let string ← copyString string ulIndex name
    let ulIndex := ulIndex + name.length
    getTokens separator rest (string.set ulIndex (separator.headD terminator)) (ulIndex + 1)

def getTokenChain (chain : List Text) (string separator : Text) : Option Text := getTokens separator chain string 0

def readString : Text → Option Text
  | [] => none
  | c :: rest => if c = terminator then some [] else (readString rest).map (c :: ·)

end Joining

section Pieces

variable {separators : Text}

theorem splitAnyFrom_pieces {current : Text} (free : ∀ c ∈ current, c ∉ separators) (text : Text) :
    Pieces (· ∈ separators) (current ++ text) (splitAnyFrom separators current text) := by
  induction text generalizing current with
  | nil =>
    rw [splitAnyFrom, List.append_nil]
    split_ifs with nothing
    · rw [nothing]
      exact .none (List.forall_mem_nil _)
    · exact .whole nothing free
  | cons c rest ih =>
    rw [splitAnyFrom]
    split_ifs with separator nothing
    · have behind : Pieces (· ∈ separators) ([c] ++ rest) (splitAnyFrom separators [] rest) :=
        .behind_gap (List.forall_mem_singleton.mpr separator) (@ih [] (List.forall_mem_nil _))
      rw [nothing]
      exact behind
    · have behind : Pieces (· ∈ separators) ([c] ++ rest) (splitAnyFrom separators [] rest) :=
        .behind_gap (List.forall_mem_singleton.mpr separator) (@ih [] (List.forall_mem_nil _))
      refine .front nothing free (fun first same => ?_) behind
      cases same
      exact separator
    · have longer : ∀ other ∈ current ++ [c], other ∉ separators := by
        intro other member
        rcases List.mem_append.mp member with inside | here
        · exact free other inside
        · rw [List.mem_singleton.mp here]
          exact separator
      have later := ih longer
      rwa [List.append_assoc] at later

theorem splitAny_pieces (text : Text) : Pieces (· ∈ separators) text (splitAny separators text) :=
  @splitAnyFrom_pieces separators [] nofun text

theorem splitAny_gap {gap : Text} (inside : ∀ c ∈ gap, c ∈ separators) (text : Text) :
    splitAny separators (gap ++ text) = splitAny separators text := by
  induction gap with
  | nil => rfl
  | cons c rest ih =>
    rw [List.forall_mem_cons] at inside
    have later := ih inside.2
    rw [splitAny, List.cons_append, splitAnyFrom, if_pos inside.1, if_pos rfl]
    exact later

theorem splitAny_front {piece : Text} (nonempty : piece ≠ []) (free : ∀ c ∈ piece, c ∉ separators) {behind : Text}
    (ended : ∀ c, behind.head? = some c → c ∈ separators) :
    splitAny separators (piece ++ behind) = piece :: splitAny separators behind := by
  cases behind with
  | nil =>
    rw [splitAny, splitAnyFrom_append free, List.nil_append, splitAnyFrom, if_neg nonempty]
    rfl
  | cons c rest =>
    have here := ended c rfl
    have skipped := splitAny_gap (List.forall_mem_singleton.mpr here) rest
    rw [splitAny_piece free here, if_neg nonempty, ← skipped]
    rfl

theorem splitAny_unique {text : Text} {pieces : List Text} (cut : Pieces (· ∈ separators) text pieces) :
    splitAny separators text = pieces := by
  induction cut with
  | none inside =>
    have all := splitAny_gap inside []
    rwa [List.append_nil] at all
  | piece inside nonempty free ended later ih => rw [splitAny_gap inside, splitAny_front nonempty free ended, ih]

theorem splitAny_eq_nil {text : Text} : splitAny separators text = [] ↔ ∀ c ∈ text, c ∈ separators := by
  constructor
  · intro nothing
    have cut : Pieces (· ∈ separators) text (splitAny separators text) := splitAny_pieces text
    rw [nothing] at cut
    cases cut with
    | none inside => exact inside
  · intro inside
    exact splitAny_unique (.none inside)

end Pieces

section Loop

variable {separators : Text}

theorem moveToNextToken_gap (separators string : Text) :
    ∃ gap, string = gap ++ moveToNextToken separators string ∧ (∀ c ∈ gap, c ∈ separators) ∧
      ∀ c, (moveToNextToken separators string).head? = some c → c ∉ separators := by
  induction string with
  | nil => exact ⟨[], rfl, nofun, nofun⟩
  | cons c rest ih =>
    rw [moveToNextToken]
    by_cases inside : c ∈ separators
    · obtain ⟨gap, same, separators, other⟩ := ih
      rw [if_pos (by simpa [charInString] using inside)]
      exact ⟨c :: gap, congrArg (c :: ·) same, List.forall_mem_cons.mpr ⟨inside, separators⟩, other⟩
    · rw [if_neg (by simpa [charInString] using inside)]
      exact ⟨[], rfl, nofun, fun first same => by cases same; exact inside⟩

theorem sizeOfToken_spec (separators string : Text) :
    ∃ piece behind, string = piece ++ behind ∧ sizeOfToken separators string.length string = piece.length ∧
      (∀ c ∈ piece, c ∉ separators) ∧ ∀ c, behind.head? = some c → c ∈ separators := by
  induction string with
  | nil => exact ⟨[], [], rfl, rfl, nofun, nofun⟩
  | cons c rest ih =>
    rw [List.length_cons, sizeOfToken]
    by_cases inside : c ∈ separators
    · rw [if_pos (by simpa [charInString] using inside)]
      exact ⟨[], c :: rest, rfl, rfl, nofun, fun first same => by cases same; exact inside⟩
    · obtain ⟨piece, behind, same, size, free, ended⟩ := ih
      rw [if_neg (by simpa [charInString] using inside)]
      exact ⟨c :: piece, behind, congrArg (c :: ·) same, congrArg (· + 1) size,
        List.forall_mem_cons.mpr ⟨inside, free⟩, ended⟩

theorem tcLoop_eq (ulSizeOfStr : Nat) (string : Text) (fits : string.length ≤ ulSizeOfStr)
    (start : ∀ c, string.head? = some c → c ∉ separators) :
    tcLoop separators ulSizeOfStr string (sizeOfToken separators string.length string) =
      tcAllocateAny separators string := by
  induction length : string.length using Nat.strong_induction_on generalizing string with
  | h n ih =>
    subst length
    obtain ⟨piece, behind, same, size, free, ended⟩ := sizeOfToken_spec separators string
    obtain ⟨gap, gapped, inside, next⟩ := moveToNextToken_gap separators behind
    rw [tcLoop, size]
    by_cases nothing : string = []
    · rw [if_neg (by simp [nothing]), nothing]
      rfl
    · have nonempty : piece ≠ [] := by
        rintro rfl
        obtain ⟨first, rest, shape⟩ := List.exists_cons_of_ne_nil nothing
        have head : string.head? = some first := by rw [shape]; rfl
        exact start first head (ended first (by rw [← head, same]; rfl))
      have some := List.length_pos_iff.mpr nonempty
      have total : piece.length + (gap.length + (moveToNextToken separators behind).length) = string.length := by
        rw [← List.length_append, ← gapped, ← List.length_append, ← same]
      rw [if_pos ⟨nothing, by omega, by omega⟩, same, List.drop_left, List.take_left]
      have later := ih (moveToNextToken separators behind).length (by omega) (moveToNextToken separators behind)
        (by omega) next rfl
      have cut : splitAny separators behind = splitAny separators (moveToNextToken separators behind) := by
        conv_lhs => rw [gapped, splitAny_gap inside]
      simp only [later, tcAllocateAny, splitAny_front nonempty free ended, cut, List.all_cons]
      by_cases long : piece.length ≥ uriPathSize
      · rw [if_pos long, if_neg (by simp [long])]
      · have short : decide (piece.length < uriPathSize) = true := by simpa using long
        rw [if_neg long, short, Bool.true_and]
        split_ifs <;> rfl

theorem tcAllocateScan_eq (string : Text) : tcAllocateScan separators string = tcAllocateAny separators string := by
  obtain ⟨gap, gapped, inside, next⟩ := moveToNextToken_gap separators string
  have cut : splitAny separators string = splitAny separators (moveToNextToken separators string) := by
    conv_lhs => rw [gapped, splitAny_gap inside]
  have whole : tcAllocateAny separators string = tcAllocateAny separators (moveToNextToken separators string) := by
    rw [tcAllocateAny, tcAllocateAny, cut]
  rw [tcAllocateScan, whole, ← tcLoop_eq string.length _ (length_moveToNextToken separators string) next]
  dsimp only
  split_ifs with nothing zero
  · rw [nothing, tcLoop, if_neg (by simp)]
  · rw [zero, tcLoop, if_neg (by simp)]
  · rfl

end Loop

section RoundTrip

variable {separators : Text}

structure TokenOf (separators name : Text) : Prop where
  nonempty : name ≠ []
  free : ∀ c ∈ name, c ∉ separators
  short : name.length < uriPathSize
  ended : terminator ∉ name

def joined (separators : Text) (chain : List Text) : Text := chain.flatMap (· ++ [separators.headD terminator])

theorem copyString_append (written old name : Text) :
    copyString (written ++ old) written.length name =
      if name.length + 1 ≤ old.length then some (written ++ (name ++ terminator :: old.drop (name.length + 1)))
      else none := by
  have place : written.length + name.length + 1 = written.length + (name.length + 1) := Nat.add_assoc ..
  have behind : (written ++ old).drop (written.length + (name.length + 1)) = old.drop (name.length + 1) := by
    rw [← List.drop_drop, List.drop_left]
  rw [copyString, place, List.length_append, List.take_left, behind]
  simp only [Nat.add_le_add_iff_left]

theorem getTokens_eq (chain : List Text) (written old : Text) :
    getTokens separators chain (written ++ old) written.length =
      if (joined separators chain).length ≤ old.length then
        some (written ++ (joined separators chain ++ old.drop (joined separators chain).length))
      else none := by
  induction chain generalizing written old with
  | nil => simp [getTokens, joined]
  | cons name rest ih =>
    have total : (joined separators (name :: rest)).length = name.length + 1 + (joined separators rest).length := by
      simp only [joined, List.flatMap_cons, List.length_append, List.length_singleton]
    rw [getTokens, copyString_append, total]
    by_cases fits : name.length + 1 ≤ old.length
    · have moved : (written ++ (name ++ terminator :: old.drop (name.length + 1))).set (written.length + name.length)
          (separators.headD terminator) =
          (written ++ (name ++ [separators.headD terminator])) ++ old.drop (name.length + 1) := by
        simp
      have length : written.length + name.length + 1 = (written ++ (name ++ [separators.headD terminator])).length := by
        simp [Nat.add_assoc]
      have later := ih (written ++ (name ++ [separators.headD terminator])) (old.drop (name.length + 1))
      rw [List.length_drop, List.drop_drop] at later
      rw [if_pos fits, Option.bind_eq_bind, Option.bind_some]
      dsimp only
      rw [moved, length, later]
      by_cases enough : name.length + 1 + (joined separators rest).length ≤ old.length
      · rw [if_pos (by omega), if_pos enough]
        simp [joined]
      · rw [if_neg (by omega), if_neg enough]
    · rw [if_neg fits, if_neg (by omega)]
      rfl

theorem getTokenChain_eq (chain : List Text) (old : Text) :
    getTokenChain chain old separators =
      if (joined separators chain).length ≤ old.length then
        some (joined separators chain ++ old.drop (joined separators chain).length)
      else none := getTokens_eq chain [] old

def RoundTrips (separators : Text) (chain : List Text) (old : Text) : Prop :=
  ∃ string text, getTokenChain chain old separators = some string ∧ readString string = some text ∧
    tcAllocateScan separators text = some chain

def EndsBehind (separators : Text) (chain : List Text) (old : Text) : Prop :=
  ∃ gap behind, old.drop (joined separators chain).length = gap ++ terminator :: behind ∧ ∀ c ∈ gap, c ∈ separators

theorem readString_append {front : Text} (plain : terminator ∉ front) (rest : Text) :
    readString (front ++ rest) = (readString rest).map (front ++ ·) := by
  induction front with
  | nil => exact Option.map_id_fun.symm ▸ rfl
  | cons c front ih =>
    obtain ⟨other, later⟩ := not_or.mp (mt List.mem_cons.mpr plain)
    rw [List.cons_append, readString, if_neg (Ne.symm other), ih later, Option.map_map]
    rfl

theorem readString_eq_some {string text : Text} (read : readString string = some text) :
    ∃ behind, string = text ++ terminator :: behind := by
  induction string generalizing text with
  | nil => cases read
  | cons c rest ih =>
    rw [readString] at read
    split_ifs at read with ends
    · cases read
      exact ⟨rest, by rw [ends]; rfl⟩
    · obtain ⟨later, found, rfl⟩ := Option.map_eq_some_iff.mp read
      obtain ⟨behind, same⟩ := ih found
      exact ⟨behind, congrArg (c :: ·) same⟩

theorem splitAny_chain {chain : List Text} (names : ∀ name ∈ chain, TokenOf separators name) {separator : Char}
    (here : separator ∈ separators) (rest : Text) :
    splitAny separators (chain.flatMap (· ++ [separator]) ++ rest) = chain ++ splitAny separators rest := by
  induction chain with
  | nil => rfl
  | cons name others ih =>
    rw [List.forall_mem_cons] at names
    rw [List.flatMap_cons, List.append_assoc, List.append_assoc, List.singleton_append,
      splitAny_piece names.1.free here, if_neg names.1.nonempty, ih names.2]
    rfl

theorem tcAllocateAny_chain {chain : List Text} (names : ∀ name ∈ chain, TokenOf separators name) {separator : Char}
    (here : separator ∈ separators) (rest : Text) :
    tcAllocateAny separators (chain.flatMap (· ++ [separator]) ++ rest) = some chain ↔ ∀ c ∈ rest, c ∈ separators := by
  rw [tcAllocateAny, splitAny_chain names here, ← splitAny_eq_nil]
  constructor
  · intro same
    split_ifs at same with short
    simpa using same
  · intro nothing
    rw [nothing, List.append_nil, if_pos]
    exact List.all_eq_true.mpr fun name member => decide_eq_true (names name member).short

theorem roundTrips_iff_of {chain : List Text} (plain : terminator ∉ separators)
    (written : terminator ∉ joined separators chain)
    (cut : ∀ rest, tcAllocateAny separators (joined separators chain ++ rest) = some chain ↔ ∀ c ∈ rest, c ∈ separators)
    (old : Text) : RoundTrips separators chain old ↔ EndsBehind separators chain old := by
  rw [RoundTrips, getTokenChain_eq]
  constructor
  · rintro ⟨string, text, joins, read, same⟩
    split_ifs at joins with fits
    cases joins
    rw [readString_append written] at read
    obtain ⟨gap, found, rfl⟩ := Option.map_eq_some_iff.mp read
    obtain ⟨behind, shape⟩ := readString_eq_some found
    rw [tcAllocateScan_eq, cut] at same
    exact ⟨gap, behind, shape, same⟩
  · rintro ⟨gap, behind, shape, inside⟩
    have fits : (joined separators chain).length ≤ old.length := by
      have length := congrArg List.length shape
      rw [List.length_drop, List.length_append, List.length_cons] at length
      omega
    have read : readString (gap ++ terminator :: behind) = some gap := by
      rw [readString_append fun member => plain (inside _ member), readString, if_pos rfl, Option.map_some,
        List.append_nil]
    refine ⟨_, _, if_pos fits, ?_, (tcAllocateScan_eq _).trans ((cut gap).mpr inside)⟩
    rw [readString_append written, shape, read, Option.map_some]

theorem roundTrips_iff {separator : Char} {others : Text} (plain : terminator ∉ separator :: others) {chain : List Text}
    (names : ∀ name ∈ chain, TokenOf (separator :: others) name) (old : Text) :
    RoundTrips (separator :: others) chain old ↔ EndsBehind (separator :: others) chain old := by
  have written : terminator ∉ joined (separator :: others) chain := by
    intro member
    obtain ⟨name, inside, here⟩ := List.mem_flatMap.mp member
    rcases List.mem_append.mp here with ended | same
    · exact (names name inside).ended ended
    · exact plain (List.mem_singleton.mp same ▸ List.mem_cons_self)
  exact roundTrips_iff_of plain written (tcAllocateAny_chain names List.mem_cons_self) old

theorem roundTrips_unseparated {chain : List Text} (names : ∀ name ∈ chain, TokenOf [] name) (old : Text) :
    RoundTrips [] chain old ↔ chain = [] ∧ EndsBehind [] chain old ∨
      chain.length = 1 ∧ (joined [] chain).length ≤ old.length := by
  cases chain with
  | nil =>
    have cut (rest : Text) : tcAllocateAny [] (joined [] [] ++ rest) = some [] ↔ ∀ c ∈ rest, c ∈ ([] : Text) :=
      by
      rw [show joined [] [] ++ rest = rest from rfl, tcAllocateAny, ← splitAny_eq_nil]
      cases splitAny [] rest with
      | nil => simp
      | cons piece pieces => simp
    have plain : terminator ∉ ([] : Text) := List.not_mem_nil
    have written : terminator ∉ joined [] [] := plain
    rw [roundTrips_iff_of plain written cut]
    simp
  | cons name more =>
    obtain ⟨first, -⟩ := List.forall_mem_cons.mp names
    have shape : joined [] (name :: more) = name ++ terminator :: joined [] more := by simp [joined]
    have alone : tcAllocateScan [] name = some [name] := by
      rw [tcAllocateScan_eq, tcAllocateAny, splitAny_unique (.whole first.nonempty first.free)]
      exact if_pos (by simpa using first.short)
    have read (rest : Text) : readString (joined [] (name :: more) ++ rest) = some name := by
      rw [shape, List.append_assoc, readString_append first.ended, List.cons_append, readString, if_pos rfl,
        Option.map_some, List.append_nil]
    rw [RoundTrips, getTokenChain_eq]
    constructor
    · rintro ⟨string, text, joins, found, same⟩
      split_ifs at joins with fits
      cases joins
      rw [read] at found
      cases found
      rw [alone] at same
      cases same
      exact .inr ⟨rfl, fits⟩
    · rintro (⟨nothing, -⟩ | ⟨one, fits⟩)
      · cases nothing
      · obtain rfl := List.length_eq_zero_iff.mp (Nat.succ.inj one)
        exact ⟨_, name, if_pos fits, read _, alone⟩

theorem token_chains (separators : Text) (plain : terminator ∉ separators) :
    (∀ string, ∃ pieces, Pieces (· ∈ separators) string pieces ∧
      (∀ others, Pieces (· ∈ separators) string others → others = pieces) ∧
      ((∀ piece ∈ pieces, piece.length < uriPathSize) → tcAllocateScan separators string = some pieces)) ∧
    ∀ chain old, (∀ name ∈ chain, TokenOf separators name) →
      (RoundTrips separators chain old ↔
        (separators ≠ [] ∨ chain = []) ∧ EndsBehind separators chain old ∨
          separators = [] ∧ chain.length = 1 ∧ (joined separators chain).length ≤ old.length) := by
  constructor
  · intro string
    refine ⟨splitAny separators string, splitAny_pieces string, fun others cut => (splitAny_unique cut).symm, ?_⟩
    intro short
    rw [tcAllocateScan_eq]
    exact if_pos (List.all_eq_true.mpr fun piece member => decide_eq_true (short piece member))
  · intro chain old names
    cases separators with
    | nil => simpa using roundTrips_unseparated names old
    | cons separator others => simpa using roundTrips_iff plain names old

theorem token_chains_sample : RoundTrips [','] [['a']] ['x', 'x', ',', terminator] := by
  have names : ∀ name ∈ [['a']], TokenOf [','] name :=
    List.forall_mem_singleton.mpr ⟨List.cons_ne_nil _ _, by simp, by simp [uriPathSize], by simp [terminator]⟩
  exact ((token_chains [','] (by decide)).2 [['a']] _ names).mpr
    (.inl ⟨.inl (List.cons_ne_nil _ _), [','], [], rfl, by simp⟩)

theorem chain_not_terminated : ¬ RoundTrips [','] [['a']] ['x', 'x', 'x', terminator] := by
  rintro ⟨string, text, joins, read, same⟩
  have written : getTokenChain [['a']] ['x', 'x', 'x', terminator] [','] = some ['a', ',', 'x', terminator] := by decide
  rw [written] at joins
  cases joins
  have found : readString ['a', ',', 'x', terminator] = some ['a', ',', 'x'] := by decide
  rw [found] at read
  cases read
  rw [tcAllocateScan_eq] at same
  exact absurd same (by decide)

end RoundTrip

end CcspCommon.AnscPlatform
