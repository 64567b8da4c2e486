import CcspCommon.Shared.Decimal

set_option autoImplicit false

namespace CcspCommon.AnscXmlDomParser

open CcspCommon.Shared

def nul : Char := '\x00'

def charAt (pString : Text) (position : Nat) : Char := pString.getD position nul

structure PredefinedEntity where
  uCharacter : Char
  encode : Text
  deriving DecidableEq, Repr

def predefinedXmlEntities : List PredefinedEntity :=
  [⟨'&', "&amp;".toList⟩, ⟨'<', "&lt;".toList⟩, ⟨'>', "&gt;".toList⟩, ⟨'\'', "&apos;".toList⟩,
    ⟨'\"', "&quot;".toList⟩]

def hexEncode : Text := "&#x".toList

def decEncode : Text := "&#".toList

def hexSize : Nat := 3

def decSize : Nat := 2

def isValidBinaryChar (c : Char) : Bool :=
  c.isDigit || ('A' ≤ c && c ≤ 'F') || ('a' ≤ c && c ≤ 'f')

def nibble (c : Char) : Nat :=
  if '0' ≤ c && c ≤ '9' then c.toNat - '0'.toNat
  else if 'A' ≤ c && c ≤ 'F' then c.toNat - 'A'.toNat + 10
  else if 'a' ≤ c && c ≤ 'f' then c.toNat - 'a'.toNat + 10
  else c.toNat

def getByte (pCharData : Text) : Char :=
  Char.ofNat ((nibble (charAt pCharData 0) * 16 + nibble (charAt pCharData 1)) % 256)

def equalMemory (first second : Text) (ulSize : Nat) : Bool :=
  (List.range ulSize).all fun k => charAt first k = charAt second k

def findSemicolon (pString : Text) : Nat → Nat → Nat
  | 0, posSemicolon => posSemicolon
  | left + 1, posSemicolon =>
    if charAt pString posSemicolon = ';' then posSemicolon else findSemicolon pString left (posSemicolon + 1)

structure Removal where
  pString : Text
  i : Nat
  ulNewStringLen : Nat
  bPosChanged : Bool
  deriving DecidableEq, Repr

namespace Removal

def keepChar (s : Removal) : Removal :=
  { pString := if s.bPosChanged then s.pString.set s.ulNewStringLen (charAt s.pString s.i) else s.pString
    i := s.i + 1
    ulNewStringLen := s.ulNewStringLen + 1
    bPosChanged := s.bPosChanged }

def putChar (s : Removal) (posSemicolon : Nat) (uChar : Char) : Removal :=
  { pString := s.pString.set s.ulNewStringLen uChar
    i := posSemicolon + 1
    ulNewStringLen := s.ulNewStringLen + 1
    bPosChanged := true }

/-- The branches differ in where the search for the semicolon begins and in what they make of the
reference; `none` leaves the `&` as it is. -/
def translate (ulStringLen : Nat) (s : Removal) (size : Nat) (uChar : Nat → Option Char) : Removal :=
  let posSemicolon := findSemicolon s.pString (ulStringLen - (s.i + size)) (s.i + size)
  if ulStringLen ≤ posSemicolon then s
  else
    match uChar posSemicolon with
    | none => s.keepChar
    | some uChar => s.putChar posSemicolon uChar

def hexChar (s : Removal) (posSemicolon : Nat) : Option Char :=
  let pTemp := s.pString.drop (s.i + hexSize)
  if posSemicolon - s.i ≠ 2 + hexSize || !isValidBinaryChar (charAt pTemp 0) || !isValidBinaryChar (charAt pTemp 1)
  then none
  else some (getByte pTemp)

def decChar (s : Removal) (posSemicolon : Nat) : Option Char :=
  let pTemp := s.pString.drop (s.i + decSize)
  let bValid :=
    if posSemicolon - s.i = 2 + decSize then (charAt pTemp 0).isDigit && (charAt pTemp 1).isDigit
    else if posSemicolon - s.i = 3 + decSize then
      (charAt pTemp 0).isDigit && (charAt pTemp 1).isDigit && (charAt pTemp 2).isDigit
    else true
  if bValid then some (Char.ofNat (atoi pTemp % 256).toNat) else none

def entityChar (s : Removal) (posSemicolon : Nat) : Option Char :=
  (predefinedXmlEntities.find? fun entity =>
    equalMemory (s.pString.drop s.i) entity.encode (posSemicolon - s.i + 1)).map PredefinedEntity.uCharacter

-- One turn of the loop. Without a semicolon nothing moves.
def step (ulStringLen : Nat) (s : Removal) : Removal :=
  if charAt s.pString s.i ≠ '&' then s.keepChar
  else if hexEncode.isPrefixOf (s.pString.drop s.i) then s.translate ulStringLen hexSize s.hexChar
  else if decEncode.isPrefixOf (s.pString.drop s.i) then s.translate ulStringLen decSize s.decChar
  else s.translate ulStringLen 1 s.entityChar

def loop (ulStringLen : Nat) : Nat → Removal → Option Removal
  | 0, s => if s.i < ulStringLen then none else some s
  | turns + 1, s => if s.i < ulStringLen then loop ulStringLen turns (s.step ulStringLen) else some s

end Removal

structure Removed where
  pString : Option Text
  pStringLen : Nat
  bPosChanged : Bool
  deriving DecidableEq, Repr

def Removed.text (removed : Removed) : Text := (removed.pString.getD []).take removed.pStringLen

def zeroMemory (pString : Text) (position size : Nat) : Text :=
  pString.take position ++ List.replicate size nul ++ pString.drop (position + size)

def removeCharReference (turns : Nat) : Option Text → Nat → Option Removed
  | none, pStringLen => some ⟨none, pStringLen, true⟩
  | some pString, ulStringLen =>
    (Removal.loop ulStringLen turns ⟨pString, 0, 0, false⟩).map fun last =>
      { pString := some
          (if last.bPosChanged then
            zeroMemory last.pString last.ulNewStringLen (ulStringLen - last.ulNewStringLen)
          else last.pString)
        pStringLen := last.ulNewStringLen
        bPosChanged := last.bPosChanged }

section Scan

theorem charAt_drop (text : Text) (first k : Nat) : charAt (text.drop first) k = charAt text (first + k) := by
  simp [charAt, List.getD_eq_getElem?_getD]

theorem charAt_of_drop {text other : Text} {first k : Nat} (same : text.drop first = other.drop first)
    (behind : first ≤ k) : charAt text k = charAt other k := by
  have both := congrArg (charAt · (k - first)) same
  simp only [charAt_drop, Nat.add_sub_cancel' behind] at both
  exact both

variable {pString : Text} {left posSemicolon : Nat}

theorem findSemicolon_bounds : posSemicolon ≤ findSemicolon pString left posSemicolon ∧
    findSemicolon pString left posSemicolon ≤ posSemicolon + left := by
  induction left generalizing posSemicolon with
  | zero => simp [findSemicolon]
  | succ left ih =>
    have later := @ih (posSemicolon + 1)
    simp only [findSemicolon]
    split <;> omega

theorem charAt_findSemicolon (found : findSemicolon pString left posSemicolon < posSemicolon + left) :
    charAt pString (findSemicolon pString left posSemicolon) = ';' := by
  induction left generalizing posSemicolon with
  | zero => simp [findSemicolon] at found
  | succ left ih =>
    simp only [findSemicolon] at found ⊢
    split at found
    next here => rw [if_pos here]; exact here
    next differs =>
      rw [if_neg differs]
      exact ih (by omega)

theorem findSemicolon_le {j : Nat} (behind : posSemicolon ≤ j) (within : j < posSemicolon + left)
    (semicolon : charAt pString j = ';') : findSemicolon pString left posSemicolon ≤ j := by
  induction left generalizing posSemicolon with
  | zero => omega
  | succ left ih =>
    simp only [findSemicolon]
    split
    next => exact behind
    next differs =>
      have past : posSemicolon ≠ j := fun same => differs (same ▸ semicolon)
      exact ih (by omega) (by omega)

/-- The encodings hold no semicolon, so that the search may begin behind them. -/
theorem charAt_of_isPrefixOf {encode text : Text} {position k : Nat}
    (begins : encode.isPrefixOf (text.drop position) = true) (within : k < encode.length) :
    charAt text (position + k) = charAt encode k := by
  obtain ⟨rest, whole⟩ := List.isPrefixOf_iff_prefix.mp begins
  rw [← charAt_drop, ← whole]
  simp [charAt, List.getD_eq_getElem?_getD, List.getElem?_append_left within]

end Scan

namespace Removal

section Turn

variable {ulStringLen : Nat} {s : Removal}

theorem translate_cases {size : Nat} (positive : 0 < size)
    (before : ∀ j, s.i < j → j < s.i + size → charAt s.pString j ≠ ';') (uChar : Nat → Option Char) :
    ((∀ j, s.i < j → j < ulStringLen → charAt s.pString j ≠ ';') ∧ s.translate ulStringLen size uChar = s) ∨
    ∃ posSemicolon, s.i < posSemicolon ∧ posSemicolon < ulStringLen ∧ charAt s.pString posSemicolon = ';' ∧
      (s.translate ulStringLen size uChar = s.keepChar ∨
        ∃ c, s.translate ulStringLen size uChar = s.putChar posSemicolon c) := by
  have bounds := @findSemicolon_bounds s.pString (ulStringLen - (s.i + size)) (s.i + size)
  by_cases missing : ulStringLen ≤ findSemicolon s.pString (ulStringLen - (s.i + size)) (s.i + size)
  next =>
    refine .inl ⟨?_, by simp [translate, missing]⟩
    intro j behind within semicolon
    by_cases early : j < s.i + size
    · exact before j behind early semicolon
    · have inside : j < s.i + size + (ulStringLen - (s.i + size)) := by omega
      have found := findSemicolon_le (Nat.le_of_not_lt early) inside semicolon
      omega
  next =>
    have inside : findSemicolon s.pString (ulStringLen - (s.i + size)) (s.i + size) <
        s.i + size + (ulStringLen - (s.i + size)) := by omega
    refine .inr ⟨_, by omega, by omega, charAt_findSemicolon inside, ?_⟩
    simp only [translate, if_neg missing]
    split
    next => exact .inl rfl
    next c _ => exact .inr ⟨c, rfl⟩

theorem step_cases (ulStringLen : Nat) (s : Removal) :
    (charAt s.pString s.i ≠ '&' ∧ s.step ulStringLen = s.keepChar) ∨
    (charAt s.pString s.i = '&' ∧ (∀ j, s.i < j → j < ulStringLen → charAt s.pString j ≠ ';') ∧
      s.step ulStringLen = s) ∨
    (charAt s.pString s.i = '&' ∧ ∃ posSemicolon, s.i < posSemicolon ∧ posSemicolon < ulStringLen ∧
      charAt s.pString posSemicolon = ';' ∧
      (s.step ulStringLen = s.keepChar ∨ ∃ c, s.step ulStringLen = s.putChar posSemicolon c)) := by
  by_cases reference : charAt s.pString s.i = '&'
  next =>
    refine .inr ?_
    simp only [reference, true_and]
    by_cases hex : hexEncode.isPrefixOf (s.pString.drop s.i) = true
    · have turn : s.step ulStringLen = s.translate ulStringLen hexSize s.hexChar := by simp [step, reference, hex]
      rw [turn]
      refine translate_cases (by decide) ?_ _
      intro j behind within
      obtain rfl | rfl : j = s.i + 1 ∨ j = s.i + 2 := by simp only [hexSize] at within; omega
      · rw [charAt_of_isPrefixOf hex (by decide)]
        decide
      · rw [charAt_of_isPrefixOf hex (by decide)]
        decide
    · by_cases dec : decEncode.isPrefixOf (s.pString.drop s.i) = true
      · have turn : s.step ulStringLen = s.translate ulStringLen decSize s.decChar := by
          simp [step, reference, hex, dec]
        rw [turn]
        refine translate_cases (by decide) ?_ _
        intro j behind within
        obtain rfl : j = s.i + 1 := by simp only [decSize] at within; omega
        rw [charAt_of_isPrefixOf dec (by decide)]
        decide
      · have turn : s.step ulStringLen = s.translate ulStringLen 1 s.entityChar := by
          simp [step, reference, hex, dec]
        rw [turn]
        exact translate_cases (by decide) (by intro j behind within; omega) _
  next => exact .inl ⟨reference, by simp [step, reference]⟩

end Turn

section Unread

structure Unread (pString : Text) (s : Removal) : Prop where
  behind : s.ulNewStringLen ≤ s.i
  same : s.pString.drop s.i = pString.drop s.i

variable {pString : Text} {s : Removal}

theorem Unread.charAt (unread : Unread pString s) {j : Nat} (ahead : s.i ≤ j) :
    charAt s.pString j = AnscXmlDomParser.charAt pString j :=
  charAt_of_drop unread.same ahead

theorem drop_set_later {text written : Text} {position first next : Nat} {c : Char}
    (same : text.drop first = written.drop first) (before : position < next) (later : first ≤ next) :
    (text.set position c).drop next = written.drop next := by
  rw [List.drop_set_of_lt before]
  have both := congrArg (List.drop (next - first)) same
  simpa only [List.drop_drop, Nat.add_sub_cancel' later] using both

theorem Unread.keepChar (unread : Unread pString s) : Unread pString s.keepChar := by
  have behind := unread.behind
  constructor
  next => exact Nat.succ_le_succ behind
  next =>
    simp only [Removal.keepChar]
    split
    next => exact drop_set_later unread.same (by omega) (by omega)
    next =>
      have both := congrArg (List.drop 1) unread.same
      simpa only [List.drop_drop] using both

theorem Unread.putChar (unread : Unread pString s) {posSemicolon : Nat} (ahead : s.i < posSemicolon) (c : Char) :
    Unread pString (s.putChar posSemicolon c) := by
  have behind := unread.behind
  constructor
  next =>
    simp only [Removal.putChar]
    omega
  next =>
    have before : s.ulNewStringLen < posSemicolon + 1 := by omega
    have later : s.i ≤ posSemicolon + 1 := by omega
    exact drop_set_later unread.same before later

end Unread

end Removal

section Termination

variable {pString : Text} {ulStringLen : Nat}

/-- Every reference to come is closed, so that every turn moves on. -/
theorem Removal.loop_ends (closed : ∀ i < ulStringLen, charAt pString i = '&' →
      ∃ j, i < j ∧ j < ulStringLen ∧ charAt pString j = ';')
    {turns : Nat} {s : Removal} (unread : s.Unread pString) (enough : ulStringLen ≤ s.i + turns) :
    (s.loop ulStringLen turns).isSome = true := by
  induction turns generalizing s with
  | zero =>
    have done : ¬ s.i < ulStringLen := by omega
    simp [loop, done]
  | succ turns ih =>
    by_cases more : s.i < ulStringLen
    next =>
      simp only [loop, if_pos more]
      obtain ⟨_, turn⟩ | ⟨reference, unclosed, _⟩ | ⟨_, posSemicolon, ahead, _, _, turn | ⟨c, turn⟩⟩ :=
        s.step_cases ulStringLen
      · rw [turn]
        exact ih unread.keepChar (by simp only [keepChar]; omega)
      · rw [unread.charAt (Nat.le_refl _)] at reference
        obtain ⟨j, later, within, semicolon⟩ := closed s.i more reference
        rw [← unread.charAt (Nat.le_of_lt later)] at semicolon
        exact absurd semicolon (unclosed j later within)
      · rw [turn]
        exact ih unread.keepChar (by simp only [keepChar]; omega)
      · rw [turn]
        exact ih (unread.putChar ahead c) (by simp only [putChar]; omega)
    next => simp [loop, more]

theorem Removal.loop_stays {position : Nat} (within : position < ulStringLen)
    (reference : charAt pString position = '&')
    (unclosed : ∀ j, position < j → j < ulStringLen → charAt pString j ≠ ';')
    (turns : Nat) {s : Removal} (unread : s.Unread pString) (before : s.i ≤ position) :
    s.loop ulStringLen turns = none := by
  have more : s.i < ulStringLen := by omega
  induction turns generalizing s with
  | zero => simp [loop, more]
  | succ turns ih =>
    simp only [loop, if_pos more]
    have kept (differs : s.i ≠ position) : s.keepChar.loop ulStringLen turns = none := by
      have next : s.keepChar.i ≤ position := by simp only [keepChar]; omega
      exact ih unread.keepChar next (by omega)
    obtain ⟨plain, turn⟩ | ⟨_, _, turn⟩ | ⟨_, posSemicolon, ahead, inside, semicolon, turn⟩ :=
      s.step_cases ulStringLen
    · rw [turn]
      refine kept fun here => plain ?_
      rw [unread.charAt (Nat.le_refl _), here, reference]
    · rw [turn]
      exact ih unread before more
    · rw [unread.charAt (Nat.le_of_lt ahead)] at semicolon
      have below : posSemicolon < position := by
        by_contra above
        obtain same | later : posSemicolon = position ∨ position < posSemicolon := by omega
        · rw [same, reference] at semicolon
          exact absurd semicolon (by decide)
        · exact unclosed posSemicolon later inside semicolon
      obtain turn | ⟨c, turn⟩ := turn
      · rw [turn]
        exact kept (by omega)
      · rw [turn]
        have next : (s.putChar posSemicolon c).i ≤ position := by simp only [putChar]; omega
        exact ih (unread.putChar ahead c) next (by omega)

theorem Removal.unread_initial (pString : Text) : Removal.Unread pString ⟨pString, 0, 0, false⟩ :=
  ⟨Nat.le_refl _, rfl⟩

theorem removeCharReference_stays {position : Nat} (within : position < ulStringLen)
    (reference : charAt pString position = '&')
    (unclosed : ∀ j, position < j → j < ulStringLen → charAt pString j ≠ ';') (turns : Nat) :
    removeCharReference turns (some pString) ulStringLen = none := by
  simp [removeCharReference,
    Removal.loop_stays within reference unclosed turns (Removal.unread_initial pString) (Nat.zero_le _)]

theorem removeCharReference_ends_iff (pString : Text) (ulStringLen : Nat) :
    (∃ turns, (removeCharReference turns (some pString) ulStringLen).isSome = true) ↔
      ∀ i < ulStringLen, charAt pString i = '&' → ∃ j, i < j ∧ j < ulStringLen ∧ charAt pString j = ';' := by
  constructor
  next =>
    rintro ⟨turns, ended⟩ i within reference
    by_contra unclosed
    have stays := removeCharReference_stays within reference
      (fun j later inside semicolon => unclosed ⟨j, later, inside, semicolon⟩) turns
    simp [stays] at ended
  next =>
    intro closed
    refine ⟨ulStringLen, ?_⟩
    have enough : ulStringLen ≤ 0 + ulStringLen := Nat.le_of_eq (Nat.zero_add _).symm
    have ends := Removal.loop_ends closed (Removal.unread_initial pString) enough
    simpa [removeCharReference] using ends

theorem bare_ampersand_never_ends :
    ¬ ∃ turns, (removeCharReference turns (some "AT&T".toList) 4).isSome = true := by
  rintro ⟨turns, ended⟩
  have unclosed : ∀ j, 2 < j → j < 4 → charAt "AT&T".toList j ≠ ';' := by
    intro j later inside
    obtain rfl : j = 3 := by omega
    decide
  have reference : charAt "AT&T".toList 2 = '&' := rfl
  have stays := removeCharReference_stays (by decide : 2 < 4) reference unclosed turns
  rw [stays] at ended
  exact absurd ended (by decide)

end Termination

end CcspCommon.AnscXmlDomParser
