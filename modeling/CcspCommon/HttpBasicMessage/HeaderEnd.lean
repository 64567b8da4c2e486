import CcspCommon.HttpMboChunked.ChunkLine

set_option autoImplicit false

namespace CcspCommon.HttpBasicMessage

open CcspCommon.HttpMboChunked

section Model

def isHfComplete (buffer : List UInt8) : Bool := (findBodyStart 0 buffer).isSome

def getHfSize (buffer : List UInt8) : Nat :=
  match findBodyStart 0 buffer with
  | some bodyStart => buffer.length - bodyStart.length
  | none => buffer.length

def breakAtBody (buffer : List UInt8) : List UInt8 × List UInt8 :=
  (buffer.take (getHfSize buffer), buffer.drop (getHfSize buffer))

end Model

theorem getHfSize_le (buffer : List UInt8) : getHfSize buffer ≤ buffer.length := by
  rw [getHfSize]
  split
  next => exact Nat.sub_le _ _
  next => exact Nat.le_refl _

section BlankLines

-- Two line break bytes that are not the CR LF of one line end.
def BlankPair (first second : UInt8) : Prop :=
  (first = carriageReturn ∨ first = lineFeed) ∧ (second = carriageReturn ∨ second = lineFeed) ∧
    ¬ (first = carriageReturn ∧ second = lineFeed)

instance (first second : UInt8) : Decidable (BlankPair first second) :=
  inferInstanceAs (Decidable (_ ∧ _ ∧ ¬ _))

def NoBlankLine (text : List UInt8) : Prop := text.IsChain fun first second => ¬ BlankPair first second

def behindLineEnd (last : UInt8) (rest : List UInt8) : List UInt8 :=
  if last = carriageReturn ∧ rest.head? = some lineFeed then rest.tail else rest

theorem findBodyStart_single (byte : UInt8) : findBodyStart 0 [byte] = none := by
  by_cases cr : byte = carriageReturn
  next =>
    subst cr
    exact findBodyStart_cr (by decide)
  next =>
    by_cases lf : byte = lineFeed
    next =>
      subst lf
      simp [findBodyStart]
    next => rw [findBodyStart_other (by decide) [] cr lf, findBodyStart_nil (by decide)]

theorem head?_nil_ne : ([] : List UInt8).head? ≠ some lineFeed := by decide

theorem lineFeed_ne : lineFeed ≠ carriageReturn := by decide

theorem findBodyStart_lf {eolCount : Nat} (few : eolCount < 2) (rest : List UInt8) :
    findBodyStart eolCount (lineFeed :: rest) = findBodyStart (eolCount + 1) rest := by
  have cases : eolCount = 0 ∨ eolCount = 1 := by omega
  rcases cases with rfl | rfl <;> cases rest <;> simp [findBodyStart, lineFeed_ne]

theorem findBodyStart_crOnly {eolCount : Nat} (few : eolCount < 2) {second : UInt8} (rest : List UInt8)
    (notLf : second ≠ lineFeed) :
    findBodyStart eolCount (carriageReturn :: second :: rest) = findBodyStart (eolCount + 1) (second :: rest) := by
  have cases : eolCount = 0 ∨ eolCount = 1 := by omega
  rcases cases with rfl | rfl <;> simp [findBodyStart, notLf]

theorem findBodyStart_second {second : UInt8} (rest : List UInt8)
    (lineBreak : second = carriageReturn ∨ second = lineFeed) :
    findBodyStart 1 (second :: rest) = some (behindLineEnd second rest) := by
  rcases lineBreak with rfl | rfl
  next =>
    cases rest with
    | nil => rfl
    | cons third rest =>
      by_cases lf : third = lineFeed
      next =>
        subst lf
        rw [findBodyStart_crlf (by decide)]
        cases rest <;> rfl
      next =>
        rw [findBodyStart_crOnly (by decide) rest lf, behindLineEnd, if_neg (by simp [lf])]
        rfl
  next =>
    rw [findBodyStart_lf (by decide), behindLineEnd, if_neg fun both => lineFeed_ne both.1]
    cases rest <;> rfl

theorem findBodyStart_pair (first second : UInt8) (rest : List UInt8) :
    findBodyStart 0 (first :: second :: rest) =
      if BlankPair first second then some (behindLineEnd second rest) else findBodyStart 0 (second :: rest) := by
  by_cases other : first ≠ carriageReturn ∧ first ≠ lineFeed
  next =>
    rw [findBodyStart_other (by decide) _ other.1 other.2, if_neg]
    rintro ⟨cr | lf, -⟩
    · exact other.1 cr
    · exact other.2 lf
  have lineBreak : first = carriageReturn ∨ first = lineFeed := by
    by_contra neither
    exact other ⟨fun cr => neither (.inl cr), fun lf => neither (.inr lf)⟩
  by_cases crLf : first = carriageReturn ∧ second = lineFeed
  next =>
    obtain ⟨rfl, rfl⟩ := crLf
    rw [if_neg (by decide), findBodyStart_crlf (by decide), findBodyStart_lf (by decide)]
  -- the first byte ends a line by itself
  have alone : findBodyStart 0 (first :: second :: rest) = findBodyStart 1 (second :: rest) := by
    rcases lineBreak with rfl | rfl
    next => exact findBodyStart_crOnly (by decide) rest fun lf => crLf ⟨rfl, lf⟩
    next => exact findBodyStart_lf (by decide) _
  rw [alone]
  by_cases again : second = carriageReturn ∨ second = lineFeed
  next => rw [if_pos ⟨lineBreak, again, crLf⟩, findBodyStart_second rest again]
  next =>
    rw [if_neg fun blank => again blank.2.1]
    rw [not_or] at again
    rw [findBodyStart_other (by decide) rest again.1 again.2, findBodyStart_other (by decide) rest again.1 again.2]

theorem noBlankLine_cons_cons {first second : UInt8} {rest : List UInt8} :
    NoBlankLine (first :: second :: rest) ↔ ¬ BlankPair first second ∧ NoBlankLine (second :: rest) :=
  List.isChain_cons_cons

theorem findBodyStart_blank {front : List UInt8} {first second : UInt8} (rest : List UInt8)
    (none : NoBlankLine (front ++ [first])) (blank : BlankPair first second) :
    findBodyStart 0 (front ++ first :: second :: rest) = some (behindLineEnd second rest) := by
  induction front with
  | nil => rw [List.nil_append, findBodyStart_pair, if_pos blank]
  | cons byte front ih =>
    cases front with
    | nil =>
      obtain ⟨apart, -⟩ := noBlankLine_cons_cons.mp none
      rw [List.cons_append, List.nil_append, findBodyStart_pair, if_neg apart]
      exact ih (.singleton first)
    | cons next front =>
      obtain ⟨apart, none⟩ := noBlankLine_cons_cons.mp none
      rw [List.cons_append, List.cons_append, findBodyStart_pair, if_neg apart]
      exact ih none

theorem isHfComplete_split {text : List UInt8} (complete : isHfComplete text = true) :
    ∃ front first second rest, text = front ++ first :: second :: rest ∧ NoBlankLine (front ++ [first]) ∧
      BlankPair first second := by
  induction text with
  | nil => cases complete
  | cons first text ih =>
    cases text with
    | nil =>
      rw [isHfComplete, findBodyStart_single] at complete
      cases complete
    | cons second rest =>
      by_cases blank : BlankPair first second
      next => exact ⟨[], first, second, rest, rfl, .singleton first, blank⟩
      next =>
        rw [isHfComplete, findBodyStart_pair, if_neg blank] at complete
        obtain ⟨front, third, fourth, later, same, none, blankLater⟩ := ih complete
        refine ⟨first :: front, third, fourth, later, congrArg (first :: ·) same, ?_, blankLater⟩
        cases front with
        | nil =>
          obtain ⟨rfl, -⟩ := List.cons.inj same
          exact noBlankLine_cons_cons.mpr ⟨blank, .singleton second⟩
        | cons next front =>
          obtain ⟨rfl, -⟩ := List.cons.inj same
          exact noBlankLine_cons_cons.mpr ⟨blank, none⟩

theorem getHfSize_blank {front : List UInt8} {first second : UInt8} (rest : List UInt8)
    (none : NoBlankLine (front ++ [first])) (blank : BlankPair first second) :
    getHfSize (front ++ first :: second :: rest) =
      if second = carriageReturn ∧ rest.head? = some lineFeed then front.length + 3 else front.length + 2 := by
  rw [getHfSize, findBodyStart_blank rest none blank]
  simp only [List.length_append, List.length_cons, behindLineEnd]
  split
  next lf =>
    cases rest with
    | nil => cases lf.2
    | cons third rest =>
      simp only [List.tail_cons, List.length_cons]
      omega
  next => omega

end BlankLines

section Stability

-- The prefix of the stream ends between the CR and the LF of its first blank line.
def CutInBlankLine (part stream : List UInt8) : Prop :=
  ∃ front first, part = front ++ [first, carriageReturn] ∧ (first = carriageReturn ∨ first = lineFeed) ∧
    NoBlankLine (front ++ [first]) ∧ part ++ [lineFeed] <+: stream

def StableSize (part stream : List UInt8) : Prop :=
  ∀ longer, part <+: longer → longer <+: stream → getHfSize longer = getHfSize part

theorem stable_of_size {front : List UInt8} {first second : UInt8} {rest stream : List UInt8}
    (none : NoBlankLine (front ++ [first])) (blank : BlankPair first second)
    (inside : ¬ (second = carriageReturn ∧ rest = [])) : StableSize (front ++ first :: second :: rest) stream := by
  rintro longer ⟨more, rfl⟩ -
  rw [List.append_assoc, List.cons_append, List.cons_append, getHfSize_blank _ none blank, getHfSize_blank _ none blank]
  cases rest with
  | nil =>
    have lf : ¬ second = carriageReturn := fun cr => inside ⟨cr, rfl⟩
    rw [if_neg fun both => lf both.1, if_neg fun both => lf both.1]
  | cons third rest => rfl

theorem header_size_stable (part stream : List UInt8) (inside : part <+: stream)
    (complete : isHfComplete part = true) : StableSize part stream ↔ ¬ CutInBlankLine part stream := by
  constructor
  next =>
    rintro stable ⟨front, first, rfl, lineBreak, none, cut⟩
    have blank : BlankPair first carriageReturn := ⟨lineBreak, .inl rfl, fun crLf => lineFeed_ne crLf.2.symm⟩
    have longer := stable _ (List.prefix_append _ [lineFeed]) cut
    rw [List.append_assoc, List.cons_append, List.cons_append, List.nil_append, getHfSize_blank _ none blank,
      getHfSize_blank _ none blank, if_pos ⟨rfl, rfl⟩, if_neg fun both => head?_nil_ne both.2] at longer
    omega
  next =>
    intro whole
    obtain ⟨front, first, second, rest, rfl, none, blank⟩ := isHfComplete_split complete
    by_cases atEnd : second = carriageReturn ∧ rest = []
    next =>
      obtain ⟨rfl, rfl⟩ := atEnd
      rintro longer ⟨more, rfl⟩ longerInside
      have notLf : more.head? ≠ some lineFeed := by
        intro lf
        obtain ⟨later, rfl⟩ := List.head?_eq_some_iff.mp lf
        refine whole ⟨front, first, rfl, blank.1, none, List.IsPrefix.trans ?_ longerInside⟩
        exact ⟨later, by rw [List.append_assoc, List.singleton_append]⟩
      rw [List.append_assoc, List.cons_append, List.cons_append, List.nil_append, getHfSize_blank _ none blank,
        getHfSize_blank _ none blank, if_neg fun both => notLf both.2, if_neg fun both => head?_nil_ne both.2]
    next => exact stable_of_size none blank atEnd

theorem header_size_stable_whole : StableSize [0x48, 0x0D, 0x0A, 0x0D, 0x0A] [0x48, 0x0D, 0x0A, 0x0D, 0x0A, 0x42] := by
  refine (header_size_stable _ _ ⟨[0x42], rfl⟩ (by decide)).mpr ?_
  rintro ⟨front, first, same, -, -, -⟩
  have last : lineFeed = carriageReturn := by simpa using congrArg List.getLast? same
  exact lineFeed_ne last

theorem header_size_unstable :
    ¬ ∀ part stream : List UInt8, part <+: stream → isHfComplete part = true → StableSize part stream := by
  intro stable
  have same := stable [0x48, 0x0D, 0x0A, 0x0D] [0x48, 0x0D, 0x0A, 0x0D, 0x0A, 0x42] ⟨[0x0A, 0x42], rfl⟩ (by decide)
    [0x48, 0x0D, 0x0A, 0x0D, 0x0A] ⟨[0x0A], rfl⟩ ⟨[0x42], rfl⟩
  exact absurd same (by decide)

theorem breakAtBody_stable {part stream : List UInt8} (stable : StableSize part stream) {longer : List UInt8}
    (more : part <+: longer) (inside : longer <+: stream) :
    (breakAtBody longer).1 = (breakAtBody part).1 ∧
      (breakAtBody longer).2 = (breakAtBody part).2 ++ longer.drop part.length := by
  have same := stable longer more inside
  obtain ⟨tail, rfl⟩ := more
  have within := getHfSize_le part
  refine ⟨?_, ?_⟩
  next => rw [breakAtBody, breakAtBody, same, List.take_append_of_le_length within]
  next => rw [breakAtBody, breakAtBody, same, List.drop_append_of_le_length within, List.drop_left]

end Stability

end CcspCommon.HttpBasicMessage
