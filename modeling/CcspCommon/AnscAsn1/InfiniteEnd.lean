import CcspCommon.AnscAsn1.Tags
import CcspCommon.AnscPlatform.AnscString

set_option autoImplicit false

namespace CcspCommon.AnscAsn1.InfiniteEnd

open CcspCommon.AnscPlatform

section Model

abbrev Memory := Nat → UInt8

structure Search where
  pFound : Option Nat
  reads : List Nat

def Search.readFirst (places : List Nat) (search : Search) : Search := { search with reads := places ++ search.reads }

variable (machine : Machine) (pBuffer : Memory) (uMaxLength : Nat)

def laterIndex (index : Nat) : Nat := if pBuffer (index + 1) = 0 then index + 1 else index + 2

-- The second test of a turn reads the second byte, and the first test does where the first byte is zero.
def turnReads (index : Nat) : List Nat :=
  if pBuffer index = 0 then [index, index + 1, index + 1] else [index, index + 1]

-- The loop of `LookingForInfiniteEnd`, which has not ended while there is no answer.
def lookingLoop : Nat → Nat → Option Search
  | 0, _ => none
  | turns + 1, index =>
    if index < uMaxLength then
      if pBuffer index = 0 ∧ pBuffer (index + 1) = 0 then some ⟨some index, [index, index + 1]⟩
      else
        (lookingLoop turns (laterIndex pBuffer index % 2 ^ machine.ulongSize.bits)).map
          (Search.readFirst (turnReads pBuffer index))
    else some ⟨none, []⟩

def lookingForInfiniteEnd (turns : Nat) : Option Memory → Option Search
  | none => some ⟨none, []⟩
  | some pBuffer => if uMaxLength < 2 then some ⟨none, []⟩ else lookingLoop machine pBuffer uMaxLength turns 0

end Model

section Walk

variable (pBuffer : Memory) (uMaxLength : Nat)

def PairAt (place : Nat) : Prop := place + 1 < uMaxLength ∧ pBuffer place = 0 ∧ pBuffer (place + 1) = 0

def behindZero : Nat → Nat
  | 0 => 0
  | length + 1 => if pBuffer length = 0 then 1 else behindZero length + 1

-- Without a pair the loop comes to a zero byte, or to a place an even number of bytes behind the last one.
def OnWalk (index : Nat) : Prop :=
  behindZero pBuffer index % 2 = 0 ∨ (index < uMaxLength ∧ pBuffer index = 0)

variable {pBuffer uMaxLength}

theorem onWalk_later {index : Nat} (here : OnWalk pBuffer uMaxLength index) (more : index + 1 < uMaxLength) :
    OnWalk pBuffer uMaxLength (laterIndex pBuffer index) := by
  rw [laterIndex]
  split
  next second => exact .inr ⟨more, second⟩
  next solid =>
    refine .inl ?_
    rw [behindZero, if_neg solid, behindZero]
    split
    next => rfl
    next first =>
      rcases here with even | ⟨-, zero⟩
      next => omega
      next => exact absurd zero first

theorem onWalk_last {index : Nat} (here : OnWalk pBuffer uMaxLength index) :
    behindZero pBuffer (index + 1) % 2 = 1 := by
  rw [behindZero]
  split
  next => rfl
  next first =>
    rcases here with even | ⟨-, zero⟩
    next => omega
    next => exact absurd zero first

theorem onWalk_end (here : OnWalk pBuffer uMaxLength uMaxLength) : behindZero pBuffer uMaxLength % 2 = 0 := by
  rcases here with even | ⟨inside, -⟩
  next => exact even
  next => exact absurd inside (Nat.lt_irrefl _)

theorem laterIndex_bounds (pBuffer : Memory) (index : Nat) :
    index < laterIndex pBuffer index ∧ laterIndex pBuffer index ≤ index + 2 := by
  rw [laterIndex]
  split <;> omega

theorem mem_turnReads (pBuffer : Memory) (index : Nat) : index + 1 ∈ turnReads pBuffer index := by
  rw [turnReads]
  split <;> simp

theorem turnReads_le {pBuffer : Memory} {index place : Nat} (read : place ∈ turnReads pBuffer index) :
    place ≤ index + 1 := by
  rw [turnReads] at read
  split at read <;> simp at read <;> omega

end Walk

section Runs

variable (machine : Machine) {pBuffer : Memory} {uMaxLength : Nat}

theorem lookingLoop_later {turns index : Nat} (held : uMaxLength < 2 ^ machine.ulongSize.bits)
    (inside : index < uMaxLength) (apart : ¬ (pBuffer index = 0 ∧ pBuffer (index + 1) = 0))
    (fits : laterIndex pBuffer index ≤ uMaxLength) :
    lookingLoop machine pBuffer uMaxLength (turns + 1) index =
      (lookingLoop machine pBuffer uMaxLength turns (laterIndex pBuffer index)).map
        (Search.readFirst (turnReads pBuffer index)) := by
  rw [lookingLoop, if_pos inside, if_neg apart, Nat.mod_eq_of_lt (Nat.lt_of_le_of_lt fits held)]

def EndsWith (pBuffer : Memory) (uMaxLength index : Nat) (answer : Option Nat) : Prop :=
  ∃ turns search, lookingLoop machine pBuffer uMaxLength turns index = some search ∧ search.pFound = answer ∧
    ∀ place ∈ search.reads, place < uMaxLength

theorem endsWith_later {index : Nat} (held : uMaxLength < 2 ^ machine.ulongSize.bits) (more : index + 1 < uMaxLength)
    (apart : ¬ (pBuffer index = 0 ∧ pBuffer (index + 1) = 0)) {answer : Option Nat}
    (later : EndsWith machine pBuffer uMaxLength (laterIndex pBuffer index) answer) :
    EndsWith machine pBuffer uMaxLength index answer := by
  obtain ⟨turns, search, ended, found, inside⟩ := later
  have fits : laterIndex pBuffer index ≤ uMaxLength := by
    have bounds := laterIndex_bounds pBuffer index
    omega
  refine ⟨turns + 1, search.readFirst (turnReads pBuffer index), ?_, found, fun place read => ?_⟩
  next => rw [lookingLoop_later machine held (by omega) apart fits, ended, Option.map_some]
  next =>
    rcases List.mem_append.mp read with here | there
    next =>
      have near := turnReads_le here
      omega
    next => exact inside place there

theorem endsWith_pair (held : uMaxLength < 2 ^ machine.ulongSize.bits) {place : Nat}
    (pair : PairAt pBuffer uMaxLength place) (first : ∀ earlier < place, ¬ PairAt pBuffer uMaxLength earlier)
    {index : Nat} (before : index ≤ place) : EndsWith machine pBuffer uMaxLength index (some place) := by
  obtain ⟨within, zero, zeroToo⟩ := pair
  induction left : place - index using Nat.strong_induction_on generalizing index with
  | _ _ ih =>
    rcases Nat.lt_or_eq_of_le before with earlier | rfl
    next =>
      have apart : ¬ (pBuffer index = 0 ∧ pBuffer (index + 1) = 0) :=
        fun both => first index earlier ⟨by omega, both.1, both.2⟩
      have bounds := laterIndex_bounds pBuffer index
      have notOver : laterIndex pBuffer index ≤ place := by
        rcases Nat.lt_or_eq_of_le (Nat.succ_le_of_lt earlier) with far | near
        next => omega
        next =>
          have second : pBuffer (index + 1) = 0 := (congrArg pBuffer near).trans zero
          rw [laterIndex, if_pos second]
          omega
      exact endsWith_later machine held (by omega) apart (ih _ (by omega) notOver rfl)
    next =>
      refine ⟨1, ⟨some index, [index, index + 1]⟩, ?_, rfl, fun place read => ?_⟩
      next => rw [lookingLoop, if_pos (by omega), if_pos ⟨zero, zeroToo⟩]
      next =>
        simp at read
        omega

theorem endsWith_none (held : uMaxLength < 2 ^ machine.ulongSize.bits)
    (apart : ∀ place, ¬ PairAt pBuffer uMaxLength place) (even : behindZero pBuffer uMaxLength % 2 = 0) {index : Nat}
    (within : index ≤ uMaxLength) (here : OnWalk pBuffer uMaxLength index) :
    EndsWith machine pBuffer uMaxLength index none := by
  induction left : uMaxLength - index using Nat.strong_induction_on generalizing index with
  | _ _ ih =>
    rcases Nat.lt_or_eq_of_le within with inside | rfl
    next =>
      have notLast : index + 1 ≠ uMaxLength := by
        intro last
        have odd := onWalk_last here
        rw [last] at odd
        omega
      have more : index + 1 < uMaxLength := by omega
      have bounds := laterIndex_bounds pBuffer index
      have later := onWalk_later here more
      exact endsWith_later machine held more (fun both => apart index ⟨more, both.1, both.2⟩)
        (ih _ (by omega) (by omega) later rfl)
    next =>
      refine ⟨1, ⟨none, []⟩, ?_, rfl, List.forall_mem_nil _⟩
      rw [lookingLoop, if_neg (Nat.lt_irrefl _)]

theorem reads_behind (held : uMaxLength < 2 ^ machine.ulongSize.bits)
    (apart : ∀ place, ¬ PairAt pBuffer uMaxLength place) (odd : behindZero pBuffer uMaxLength % 2 = 1)
    {turns index : Nat} (inside : index < uMaxLength) (here : OnWalk pBuffer uMaxLength index) {search : Search}
    (ended : lookingLoop machine pBuffer uMaxLength turns index = some search) : uMaxLength ∈ search.reads := by
  induction turns generalizing index search with
  | zero => cases ended
  | succ turns ih =>
    rcases Nat.lt_or_eq_of_le (Nat.succ_le_of_lt inside) with more | last
    next =>
      have bounds := laterIndex_bounds pBuffer index
      have later := onWalk_later here more
      have notEnd : laterIndex pBuffer index ≠ uMaxLength := by
        intro atEnd
        rw [atEnd] at later
        have even := onWalk_end later
        omega
      rw [lookingLoop_later machine held inside (fun both => apart index ⟨more, both.1, both.2⟩) (by omega)] at ended
      obtain ⟨rest, continued, rfl⟩ := Option.map_eq_some_iff.mp ended
      exact List.mem_append_right _ (ih (by omega) later continued)
    next =>
      rw [lookingLoop, if_pos inside] at ended
      split at ended
      next =>
        cases ended
        rw [← last]
        exact List.mem_cons_of_mem _ List.mem_cons_self
      next =>
        obtain ⟨rest, -, rfl⟩ := Option.map_eq_some_iff.mp ended
        rw [← last]
        exact List.mem_append_left _ (mem_turnReads pBuffer index)

end Runs

section Outcome

variable (machine : Machine) {pBuffer : Memory} {uMaxLength : Nat}

def FindsEnd (pBuffer : Memory) (uMaxLength : Nat) : Prop :=
  ∃ turns search, lookingForInfiniteEnd machine uMaxLength turns (some pBuffer) = some search ∧
    (∀ place, search.pFound = some place ↔
      PairAt pBuffer uMaxLength place ∧ ∀ earlier < place, ¬ PairAt pBuffer uMaxLength earlier) ∧
    ∀ place ∈ search.reads, place < uMaxLength

/-- A pair ends the search, or it steps over the last byte: from the last zero byte on, or from the beginning, the
number of bytes is even. -/
def StaysInside (pBuffer : Memory) (uMaxLength : Nat) : Prop :=
  uMaxLength < 2 ∨ (∃ place, PairAt pBuffer uMaxLength place) ∨ behindZero pBuffer uMaxLength % 2 = 0

theorem lookingForInfiniteEnd_some (long : 2 ≤ uMaxLength) (turns : Nat) :
    lookingForInfiniteEnd machine uMaxLength turns (some pBuffer) =
      lookingLoop machine pBuffer uMaxLength turns 0 := if_neg (Nat.not_lt_of_le long)

theorem reads_outside (held : uMaxLength < 2 ^ machine.ulongSize.bits) (leaves : ¬ StaysInside pBuffer uMaxLength)
    {turns : Nat} {search : Search}
    (ended : lookingForInfiniteEnd machine uMaxLength turns (some pBuffer) = some search) :
    uMaxLength ∈ search.reads := by
  obtain ⟨long, apart, odd⟩ := not_or.mp leaves |>.imp id not_or.mp
  rw [lookingForInfiniteEnd_some machine (Nat.le_of_not_lt long)] at ended
  exact reads_behind machine held (fun place pair => apart ⟨place, pair⟩) (by omega) (by omega) (.inl rfl) ended

theorem findsEnd_of_endsWith {answer : Option Nat} (long : 2 ≤ uMaxLength)
    (ends : EndsWith machine pBuffer uMaxLength 0 answer)
    (exact : ∀ place, answer = some place ↔
      PairAt pBuffer uMaxLength place ∧ ∀ earlier < place, ¬ PairAt pBuffer uMaxLength earlier) :
    FindsEnd machine pBuffer uMaxLength := by
  obtain ⟨turns, search, ended, found, inside⟩ := ends
  refine ⟨turns, search, ?_, ?_, inside⟩
  next => rw [lookingForInfiniteEnd_some machine long, ended]
  next =>
    rw [found]
    exact exact

theorem findsEnd_of_staysInside (held : uMaxLength < 2 ^ machine.ulongSize.bits)
    (stays : StaysInside pBuffer uMaxLength) : FindsEnd machine pBuffer uMaxLength := by
  by_cases short : uMaxLength < 2
  next =>
    refine ⟨0, ⟨none, []⟩, if_pos short, fun place => ?_, List.forall_mem_nil _⟩
    refine iff_of_false (Option.some_ne_none place).symm fun ⟨pair, _⟩ => ?_
    have within := pair.1
    omega
  have long : 2 ≤ uMaxLength := Nat.le_of_not_lt short
  by_cases some : ∃ place, PairAt pBuffer uMaxLength place
  next =>
    classical
    have pair := Nat.find_spec some
    have first : ∀ earlier < Nat.find some, ¬ PairAt pBuffer uMaxLength earlier := fun _ => Nat.find_min some
    refine findsEnd_of_endsWith machine long (endsWith_pair machine held pair first (Nat.zero_le _)) fun place => ?_
    rw [Option.some.injEq, Nat.find_eq_iff]
  next =>
    have even : behindZero pBuffer uMaxLength % 2 = 0 := by
      rcases stays with few | there | even
      next => exact absurd few short
      next => exact absurd there some
      next => exact even
    have apart : ∀ place, ¬ PairAt pBuffer uMaxLength place := fun place pair => some ⟨place, pair⟩
    have none := endsWith_none machine held apart even (Nat.zero_le _) (.inl rfl)
    refine findsEnd_of_endsWith machine long none fun place => ?_
    exact iff_of_false (Option.some_ne_none place).symm fun ⟨pair, _⟩ => apart place pair

theorem infinite_end_found (held : uMaxLength < 2 ^ machine.ulongSize.bits) :
    FindsEnd machine pBuffer uMaxLength ↔ StaysInside pBuffer uMaxLength := by
  refine ⟨fun finds => ?_, findsEnd_of_staysInside machine held⟩
  by_contra leaves
  obtain ⟨turns, search, ended, -, inside⟩ := finds
  exact Nat.lt_irrefl _ (inside _ (reads_outside machine held leaves ended))

def memoryOf (bytes : List UInt8) : Memory := fun place => bytes.getD place 255

theorem infinite_end_found_pair : FindsEnd ⟨.four, false, true⟩ (memoryOf [7, 0, 8, 0, 0]) 5 ↔
    StaysInside (memoryOf [7, 0, 8, 0, 0]) 5 :=
  infinite_end_found _ (by decide)

theorem infinite_end_found_odd : ¬ ∀ (machine : Machine) (pBuffer : Memory) (uMaxLength : Nat),
    uMaxLength < 2 ^ machine.ulongSize.bits → FindsEnd machine pBuffer uMaxLength := by
  intro every
  obtain ⟨turns, search, ended, -, inside⟩ := every ⟨.four, false, true⟩ (memoryOf [1, 2, 3]) 3 (by decide)
  have leaves : ¬ StaysInside (memoryOf [1, 2, 3]) 3 := by
    rintro (few | ⟨place, within, zero, -⟩ | even)
    next => exact absurd few (by decide)
    next =>
      have every : ∀ place < 2, memoryOf [1, 2, 3] place ≠ 0 := by decide
      exact every place (by omega) zero
    next => exact absurd even (by decide)
  exact Nat.lt_irrefl _ (inside _ (reads_outside ⟨.four, false, true⟩ (by decide) leaves ended))

end Outcome

section Decoders

variable (machine : Machine)

theorem octet_memoryOf {data : List UInt8} {place : Nat} (inside : place < data.length) :
    octet data place = .ok (memoryOf data place) := by
  rw [octet, List.getElem?_eq_getElem inside, memoryOf, List.getD_eq_getElem?_getD, List.getElem?_eq_getElem inside,
    Option.getD_some]

theorem infiniteLoop_eq {data : List UInt8} {uMaxLength : Nat} (held : uMaxLength < 2 ^ machine.ulongSize.bits)
    (given : uMaxLength ≤ data.length) {turns index : Nat} {search : Search}
    (ended : lookingLoop machine (memoryOf data) uMaxLength turns index = some search)
    (inside : ∀ place ∈ search.reads, place < uMaxLength) {fuel : Nat} (enough : uMaxLength - index ≤ fuel) :
    infiniteLoop data uMaxLength fuel index = .ok search.pFound := by
  induction turns generalizing index search fuel with
  | zero => cases ended
  | succ turns ih =>
    rw [lookingLoop] at ended
    by_cases more : index < uMaxLength
    next =>
      obtain ⟨fuel, rfl⟩ := Nat.exists_eq_succ_of_ne_zero (show fuel ≠ 0 by omega)
      rw [if_pos more] at ended
      -- both bytes are read in every turn
      have second : index + 1 < uMaxLength := by
        refine inside _ ?_
        split at ended
        next =>
          cases ended
          exact List.mem_cons_of_mem _ List.mem_cons_self
        next =>
          obtain ⟨rest, -, rfl⟩ := Option.map_eq_some_iff.mp ended
          exact List.mem_append_left _ (mem_turnReads _ index)
      rw [infiniteLoop, if_pos more, octet_memoryOf (by omega), octet_memoryOf (by omega)]
      dsimp only [bind, Except.bind]
      split at ended
      next both =>
        cases ended
        rw [if_pos both]
      next apart =>
        obtain ⟨rest, continued, rfl⟩ := Option.map_eq_some_iff.mp ended
        have bounds := laterIndex_bounds (memoryOf data) index
        rw [Nat.mod_eq_of_lt (by omega)] at continued
        rw [if_neg apart]
        exact ih continued (fun place read => inside place (List.mem_append_right _ read)) (by omega)
    next =>
      rw [if_neg more] at ended
      cases ended
      cases fuel with
      | zero => rfl
      | succ fuel => rw [infiniteLoop, if_neg more]

theorem lookingForInfiniteEnd_first {data : List UInt8} {uMaxLength : Nat}
    (held : uMaxLength < 2 ^ machine.ulongSize.bits) (given : uMaxLength ≤ data.length)
    (stays : StaysInside (memoryOf data) uMaxLength) :
    ∃ answer, AnscAsn1.lookingForInfiniteEnd data uMaxLength = .ok answer ∧ ∀ place, answer = some place ↔
      PairAt (memoryOf data) uMaxLength place ∧ ∀ earlier < place, ¬ PairAt (memoryOf data) uMaxLength earlier := by
  obtain ⟨turns, search, ended, first, inside⟩ := findsEnd_of_staysInside machine held stays
  refine ⟨search.pFound, ?_, first⟩
  rw [lookingForInfiniteEnd] at ended
  rw [AnscAsn1.lookingForInfiniteEnd]
  split at ended
  next short =>
    cases ended
    exact if_pos short
  next long =>
    rw [if_neg long]
    exact infiniteLoop_eq machine held given ended inside (Nat.sub_le _ _)

end Decoders

end CcspCommon.AnscAsn1.InfiniteEnd
