import CcspCommon.AnscPlatform.AnscString
import CcspCommon.Shared.Recorded

set_option autoImplicit false

namespace CcspCommon.DslhVarRecord

open CcspCommon.Shared CcspCommon.AnscPlatform

section Validation

def portSize : Nat := 6

def copyPort : Nat → Text → List Char → Writer (List Nat) (List Char)
  | _, [], port => pure port
  | j, c :: rest, port => do
    let j ← recorded j
    copyPort (j + 1) rest (port.set j c)

-- The string in an array; a search for its end does not stop in an array without a NUL.
def cString (array : List Char) : Option Text :=
  if Char.ofNat 0 ∈ array then some (array.takeWhile (· ≠ Char.ofNat 0)) else none

-- No result stands for the read behind `port`.
def portIsValid (machine : Machine) (port : List Char) : Option Bool :=
  (cString port).map fun port =>
    let ulPortNum := (getStringUlong machine port).toNat
    0 < ulPortNum && ulPortNum ≤ 65535

def hostString (pStringValue : Text) : Option Text :=
  if strstr "http".toList pStringValue = some pStringValue then
    let pTmpSubString := pStringValue.drop 4
    let pTmpSubString := if pTmpSubString.head? = some 's' then pTmpSubString.drop 1 else pTmpSubString
    if strstr "://".toList pTmpSubString = some pTmpSubString then some (pTmpSubString.drop 3) else none
  else none

def isValidUrlString (machine : Machine) (pStringValue : Text) : Writer (List Nat) (Option Bool) :=
  match hostString pStringValue with
  | none => pure (some false)
  | some pHostString =>
    match strstr [':'] pHostString with
    | none => pure (some true)
    | some pPortString => do
      let pPortString := pPortString.drop 1
      let behind := pPortString.dropWhile Char.isDigit
      if behind = [] ∨ behind.head? = some '/' then
        let port ← copyPort 0 (pPortString.takeWhile Char.isDigit) (List.replicate portSize (Char.ofNat 0))
        return portIsValid machine port
      else return some false

theorem copyPort_within (size j : Nat) (digits : Text) (port : List Char) :
    AllWritten (· < size) (copyPort j digits port) ↔ digits = [] ∨ j + digits.length ≤ size := by
  induction digits generalizing j port with
  | nil => simp [copyPort]
  | cons c rest ih =>
    rw [copyPort, allWritten_bind, allWritten_recorded, outcome_recorded, ih]
    simp only [reduceCtorEq, false_or, List.length_cons]
    cases rest with
    | nil => simp only [true_or, and_true, List.length_nil]; omega
    | cons d more => simp only [reduceCtorEq, false_or, List.length_cons]; omega

end Validation

section Ports

theorem scheme_iff (rest host : Text) :
    (if rest.head? = some 's' then rest.drop 1 else rest) = "://".toList ++ host ↔
      ∃ secure, (secure = [] ∨ secure = ['s']) ∧ rest = secure ++ ("://".toList ++ host) := by
  constructor
  next =>
    intro same
    split at same
    next first =>
      obtain ⟨behind, own⟩ := List.head?_eq_some_iff.mp first
      rw [own, List.drop_one, List.tail_cons] at same
      exact ⟨['s'], .inr rfl, by rw [own, same]; rfl⟩
    next => exact ⟨[], .inl rfl, same⟩
  next =>
    rintro ⟨secure, either, same⟩
    cases either with
    | inl empty => rw [same, empty]; rfl
    | inr single => rw [same, single]; rfl

theorem hostString_iff (text host : Text) :
    hostString text = some host ↔ ∃ secure, (secure = [] ∨ secure = ['s']) ∧
      text = "http".toList ++ (secure ++ ("://".toList ++ host)) := by
  rw [hostString]
  split
  next http =>
    obtain ⟨rest, own⟩ := (strstr_self (by decide)).mp http
    have behind : text.drop 4 = rest := by rw [own]; rfl
    simp only [behind]
    have scheme := scheme_iff rest host
    have same : (∃ secure, (secure = [] ∨ secure = ['s']) ∧
      text = "http".toList ++ (secure ++ ("://".toList ++ host))) ↔
        ∃ secure, (secure = [] ∨ secure = ['s']) ∧ rest = secure ++ ("://".toList ++ host) := by
      rw [own]
      simp only [List.append_cancel_left_eq]
    rw [same, ← scheme]
    generalize (if rest.head? = some 's' then rest.drop 1 else rest) = pTmpSubString
    split
    next separated =>
      obtain ⟨found, whole⟩ := (strstr_self (by decide)).mp separated
      rw [whole, List.append_cancel_left_eq, Option.some.injEq]
      rfl
    next other =>
      constructor
      next => intro impossible; cases impossible
      next => intro begins; exact absurd ((strstr_self (by decide)).mpr ⟨host, begins⟩) other
  next other =>
    constructor
    next => intro impossible; cases impossible
    next => rintro ⟨secure, _, begins⟩; exact absurd ((strstr_self (by decide)).mpr ⟨_, begins⟩) other

theorem colon_iff (host port : Text) :
    strstr [':'] host = some (':' :: port) ↔ ∃ before, ':' ∉ before ∧ host = before ++ ':' :: port := by
  constructor
  next =>
    intro found
    by_cases member : ':' ∈ host
    next =>
      obtain ⟨before, behind, split, free⟩ := List.eq_append_cons_of_mem member
      rw [split, strstr_char free] at found
      have same := List.cons.inj (Option.some.inj found)
      exact ⟨before, free, by rw [split, same.2]⟩
    next =>
      rw [strstr_absent List.mem_cons_self member] at found
      cases found
  next =>
    rintro ⟨before, free, split⟩
    rw [split, strstr_char free]

def LongPort (text : Text) : Prop :=
  ∃ secure before digits behind, (secure = [] ∨ secure = ['s']) ∧ ':' ∉ before ∧ (∀ c ∈ digits, c.isDigit = true) ∧
    (behind = [] ∨ behind.head? = some '/') ∧ portSize < digits.length ∧
    text = "http".toList ++ (secure ++ ("://".toList ++ (before ++ ':' :: (digits ++ behind))))

theorem digits_split {digits behind : Text} (allDigits : ∀ c ∈ digits, c.isDigit = true)
    (stops : behind = [] ∨ behind.head? = some '/') :
    (digits ++ behind).takeWhile Char.isDigit = digits ∧ (digits ++ behind).dropWhile Char.isDigit = behind := by
  rw [List.takeWhile_append_of_pos allDigits, List.dropWhile_append_of_pos allDigits]
  cases stops with
  | inl empty => rw [empty]; simp
  | inr slash =>
    obtain ⟨more, own⟩ := List.head?_eq_some_iff.mp slash
    have noDigit : ('/' : Char).isDigit = false := by decide
    rw [own, List.takeWhile_cons, List.dropWhile_cons, noDigit]
    simp

theorem longPort_iff {text host port : Text} (named : hostString text = some host)
    (found : strstr [':'] host = some (':' :: port)) :
    LongPort text ↔ (port.dropWhile Char.isDigit = [] ∨ (port.dropWhile Char.isDigit).head? = some '/') ∧
      portSize < (port.takeWhile Char.isDigit).length := by
  constructor
  next =>
    rintro ⟨secure, before, digits, behind, either, free, allDigits, stops, long, whole⟩
    have other := (hostString_iff text _).mpr ⟨secure, either, whole⟩
    rw [named] at other
    rw [Option.some.inj other, strstr_char free] at found
    obtain ⟨taken, dropped⟩ := digits_split allDigits stops
    rw [← (List.cons.inj (Option.some.inj found)).2, taken, dropped]
    exact ⟨stops, long⟩
  next =>
    rintro ⟨stops, long⟩
    obtain ⟨secure, either, whole⟩ := (hostString_iff text host).mp named
    obtain ⟨before, free, split⟩ := (colon_iff host port).mp found
    refine ⟨secure, before, _, _, either, free, fun c member => List.mem_takeWhile_imp member, stops, long, ?_⟩
    rw [List.takeWhile_append_dropWhile, ← split, whole]

theorem url_within (machine : Machine) (text : Text) :
    AllWritten (· < portSize) (isValidUrlString machine text) ↔ ¬ LongPort text := by
  rw [isValidUrlString]
  cases named : hostString text with
  | none =>
    apply iff_of_true (allWritten_pure _)
    rintro ⟨secure, before, digits, behind, either, _, _, _, _, whole⟩
    rw [(hostString_iff text _).mpr ⟨secure, either, whole⟩] at named
    cases named
  | some host =>
    dsimp only
    by_cases colon : ':' ∈ host
    next =>
      obtain ⟨before, port, split, free⟩ := List.eq_append_cons_of_mem colon
      have found : strstr [':'] host = some (':' :: port) := by rw [split, strstr_char free]
      rw [found, longPort_iff named found]
      simp only [List.drop_one, List.tail_cons]
      split_ifs with stops
      next =>
        have room := copyPort_within portSize 0 (port.takeWhile Char.isDigit) (List.replicate portSize (Char.ofNat 0))
        rw [allWritten_bind, room]
        simp only [allWritten_pure, and_true, stops, true_and, Nat.zero_add, Nat.not_lt, or_iff_right_iff_imp]
        intro empty
        rw [empty]
        exact Nat.zero_le portSize
      next => exact iff_of_true (allWritten_pure _) fun long => stops long.1
    next =>
      rw [strstr_absent List.mem_cons_self colon]
      apply iff_of_true (allWritten_pure _)
      rintro ⟨secure, before, digits, behind, either, _, _, _, _, whole⟩
      have other := (hostString_iff text _).mpr ⟨secure, either, whole⟩
      rw [named] at other
      exact colon (by rw [Option.some.inj other]; simp)

theorem url_outside :
    ¬ AllWritten (· < portSize) (isValidUrlString ⟨.eight, true, true⟩ "http://h:1234567".toList) := by
  intro inside
  have written := inside 6 (by decide)
  revert written
  decide

end Ports

end CcspCommon.DslhVarRecord
