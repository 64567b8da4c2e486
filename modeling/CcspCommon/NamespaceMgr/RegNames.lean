import CcspCommon.Shared.Text
import CcspCommon.Shared.Tokens

set_option autoImplicit false

namespace CcspCommon.NamespaceMgr

open CcspCommon.Shared

section Model

def tr69ParamTableSymbol : Text := ['{', 'i', '}']

def moveToNextToken (string : Text) : Text := string.dropWhile (· = '.')

def sizeOfToken (string : Text) : Nat := (string.takeWhile (· ≠ '.')).length

def startsInstance (pString : Text) : Bool := pString.head?.any fun c => '1' ≤ c && c ≤ '9'

-- `AnscCopyMemory` to the end of what `pBackName` holds; nothing when it leaves the 256 bytes.
def write (pBackName piece : Text) : Option Text :=
  if pBackName.length + piece.length ≤ 256 then some (pBackName ++ piece) else none

def changeTokens : Nat → Bool → Text → Text → Option (Bool × Text)
  | 0, bChange, pBackName, _ => some (bChange, pBackName)
  | left + 1, bChange, pBackName, pString =>
    let ulTokenSize := sizeOfToken pString
    if pString = [] ∨ ulTokenSize = 0 then some (bChange, pBackName)
    else
      let piece := if startsInstance pString then tr69ParamTableSymbol else pString.take ulTokenSize
      (write pBackName piece).bind fun written =>
        let rest := pString.drop ulTokenSize
        (if rest = [] then some written else write written ['.']).bind fun separated =>
          changeTokens left (bChange || startsInstance pString) separated (moveToNextToken rest)

-- `CcspNsMgrChangeToRegNamespaceName`: the new string and the flag, `some none` for NULL. There is
-- no result when the buffer of 256 bytes does not hold the new string with its NUL.
def changeToRegNamespaceName (pString : Option Text) : Option (Option (Text × Bool)) :=
  match pString with
  | none => some none
  | some pString =>
    if pString = [] then some none
    else if pString.head? = some '.' || (strstr ['.', '.'] pString).isSome then some none
    else if pString.length > 255 then some none
    else
      let first := moveToNextToken pString
      if first = [] ∨ sizeOfToken first = 0 then some none
      else
        (changeTokens pString.length false [] first).bind fun (bChange, pBackName) =>
          if bChange then if pBackName.length < 256 then some (some (pBackName, true)) else none
          else some (some (pString, false))

end Model

section Names

def dotted (tokens : List Text) (trailing : Bool) : Text :=
  joinTokens '.' tokens ++ if trailing then ['.'] else []

def isInstanceNumber (token : Text) : Bool := token.all Char.isDigit

def replaceTokens (isInstance : Text → Bool) (tokens : List Text) : List Text :=
  tokens.map fun token => if isInstance token then tr69ParamTableSymbol else token

def Normalises (tokens : List Text) (trailing : Bool) : Prop :=
  (dotted (replaceTokens isInstanceNumber tokens) trailing).length < 256 ∧
    ∃ bChange, changeToRegNamespaceName (some (dotted tokens trailing)) =
      some (some (dotted (replaceTokens isInstanceNumber tokens) trailing, bChange))

def separation (rest : List Text) (trailing : Bool) : Text :=
  if rest = [] ∧ trailing = false then [] else ['.']

def remaining (tokens : List Text) (trailing : Bool) : Text :=
  if tokens = [] then [] else dotted tokens trailing

theorem dotted_cons (token : Text) (rest : List Text) (trailing : Bool) :
    dotted (token :: rest) trailing = token ++ (separation rest trailing ++ remaining rest trailing) := by
  cases rest with
  | nil => cases trailing <;> simp [dotted, separation, remaining, joinTokens]
  | cons next more => simp [dotted, separation, remaining, joinTokens]

theorem separation_replaceTokens (isInstance : Text → Bool) (rest : List Text) (trailing : Bool) :
    separation (replaceTokens isInstance rest) trailing = separation rest trailing := by
  cases rest <;> rfl

theorem remaining_cons (token : Text) (rest : List Text) (trailing : Bool) :
    remaining (token :: rest) trailing = dotted (token :: rest) trailing := rfl

variable {token : Text} {tokens rest : List Text} {trailing : Bool}

theorem separation_nil : separation rest trailing = [] ↔ rest = [] ∧ trailing = false := by
  simp [separation]

theorem remaining_eq_nil_of_separation (none : separation rest trailing = []) :
    remaining rest trailing = [] := by
  rw [(separation_nil.mp none).1]
  rfl

theorem sizeOfToken_token (free : '.' ∉ token) (rest : List Text) (trailing : Bool) :
    sizeOfToken (token ++ (separation rest trailing ++ remaining rest trailing)) = token.length := by
  have kept : ∀ c ∈ token, decide (c ≠ '.') = true := by
    intro c member
    simp only [decide_eq_true_eq]
    rintro rfl
    exact free member
  have stop : (separation rest trailing ++ remaining rest trailing).takeWhile (· ≠ '.') = [] := by
    by_cases none : separation rest trailing = []
    · simp [none, remaining_eq_nil_of_separation none]
    · have dot : separation rest trailing = ['.'] := if_neg fun both => none (separation_nil.mpr both)
      simp [dot]
  rw [sizeOfToken, List.takeWhile_append_of_pos kept, stop, List.append_nil]

theorem moveToNextToken_remaining (proper : ∀ token ∈ tokens, IsToken '.' token) (trailing : Bool) :
    moveToNextToken (remaining tokens trailing) = remaining tokens trailing := by
  cases tokens with
  | nil => rfl
  | cons token rest =>
    obtain ⟨nonempty, free⟩ := proper token List.mem_cons_self
    obtain ⟨c, more, rfl⟩ := List.exists_cons_of_ne_nil nonempty
    simp only [List.mem_cons, not_or] at free
    rw [remaining_cons, dotted_cons, moveToNextToken, List.cons_append, List.dropWhile_cons_of_neg]
    simpa using Ne.symm free.1

theorem moveToNextToken_separation (proper : ∀ token ∈ rest, IsToken '.' token) (trailing : Bool) :
    moveToNextToken (separation rest trailing ++ remaining rest trailing) = remaining rest trailing := by
  have later := moveToNextToken_remaining proper trailing
  rw [separation]
  split
  · exact later
  · rw [moveToNextToken, List.cons_append, List.dropWhile_cons_of_pos (by simp)]
    exact later

theorem startsInstance_token (nonempty : token ≠ []) (after : Text) :
    startsInstance (token ++ after) = startsInstance token := by
  obtain ⟨c, more, rfl⟩ := List.exists_cons_of_ne_nil nonempty
  rfl

def written (bChange : Bool) (name : Text) : Option (Bool × Text) :=
  if name.length ≤ 256 then some (bChange, name) else none

theorem write_bind {bChange : Bool} {after : Text} {later : Text → Option (Bool × Text)}
    (step : ∀ longer, longer.length ≤ 256 → later longer = written bChange (longer ++ after))
    (pBackName piece : Text) :
    (write pBackName piece).bind later = written bChange (pBackName ++ (piece ++ after)) := by
  rw [write, ← List.append_assoc]
  split
  next fits => exact step _ (by simpa using fits)
  next outside =>
    rw [Option.bind_none, written, if_neg]
    simp only [List.length_append]
    omega

theorem changeTokens_remaining (proper : ∀ token ∈ tokens, IsToken '.' token) (trailing : Bool)
    {left : Nat} (enough : (remaining tokens trailing).length ≤ left) (bChange : Bool) {pBackName : Text}
    (fits : pBackName.length ≤ 256) :
    changeTokens left bChange pBackName (remaining tokens trailing) =
      written (bChange || tokens.any startsInstance)
        (pBackName ++ remaining (replaceTokens startsInstance tokens) trailing) := by
  induction tokens generalizing left bChange pBackName with
  | nil =>
    have same : written bChange pBackName = some (bChange, pBackName) := if_pos fits
    cases left <;> simp [changeTokens, remaining, replaceTokens, same]
  | cons token rest ih =>
    obtain ⟨nonempty, free⟩ := proper token List.mem_cons_self
    have others : ∀ token ∈ rest, IsToken '.' token := fun other member => proper other (.tail token member)
    rw [remaining_cons, dotted_cons] at enough ⊢
    have size := sizeOfToken_token free rest trailing
    have positive : 0 < token.length := List.length_pos_iff.mpr nonempty
    cases left with
    | zero =>
      simp only [List.length_append] at enough
      omega
    | succ left =>
      have short : (remaining rest trailing).length ≤ left := by
        simp only [List.length_append] at enough
        omega
      have more : ¬ (token ++ (separation rest trailing ++ remaining rest trailing) = [] ∨
          token.length = 0) := by simp [nonempty]
      simp only [changeTokens, size, if_neg more, startsInstance_token nonempty, List.take_left, List.drop_left,
        moveToNextToken_separation others]
      have later : ∀ separated : Text, separated.length ≤ 256 →
          changeTokens left (bChange || startsInstance token) separated (remaining rest trailing) =
            written (bChange || startsInstance token || rest.any startsInstance)
              (separated ++ remaining (replaceTokens startsInstance rest) trailing) :=
        fun _ fits => ih others short _ fits
      rw [replaceTokens, List.map_cons, ← replaceTokens, remaining_cons, dotted_cons, separation_replaceTokens,
        List.any_cons, ← Bool.or_assoc]
      refine write_bind (fun longer fits => ?_) _ _
      -- a dot is written unless the name ends with this token
      split
      next ends =>
        obtain ⟨none, -⟩ := List.append_eq_nil_iff.mp ends
        rw [Option.bind_some, later longer fits, none, List.nil_append]
      next goes =>
        have dot : separation rest trailing = ['.'] := by
          rw [separation, if_neg]
          intro both
          exact goes (by rw [separation_nil.mpr both, remaining_eq_nil_of_separation (separation_nil.mpr both)]; rfl)
        rw [dot]
        exact write_bind later _ _

structure IsName (tokens : List Text) (trailing : Bool) : Prop where
  some : tokens ≠ []
  proper : ∀ token ∈ tokens, IsToken '.' token
  short : (dotted tokens trailing).length ≤ 255

theorem replaceTokens_of_none {isInstance : Text → Bool} (none : tokens.any isInstance = false) :
    replaceTokens isInstance tokens = tokens := by
  simp only [List.any_eq_false, Bool.not_eq_true] at none
  refine (List.map_congr_left fun token member => ?_).trans (List.map_id tokens)
  rw [none token member]
  rfl

theorem strstr_dots_token (free : '.' ∉ token) (after : Text) :
    strstr ['.', '.'] (token ++ after) = strstr ['.', '.'] after := by
  induction token with
  | nil => rfl
  | cons c rest ih =>
    simp only [List.mem_cons, not_or] at free
    have other : List.isPrefixOf ['.', '.'] (c :: (rest ++ after)) = false := by
      simp [List.isPrefixOf, free.1]
    rw [List.cons_append, strstr, other]
    exact ih free.2

theorem strstr_dots_dotted (proper : ∀ token ∈ tokens, IsToken '.' token) (trailing : Bool) :
    strstr ['.', '.'] (remaining tokens trailing) = none := by
  induction tokens with
  | nil => rfl
  | cons token rest ih =>
    obtain ⟨-, free⟩ := proper token List.mem_cons_self
    have others : ∀ token ∈ rest, IsToken '.' token := fun other member => proper other (.tail token member)
    have later := ih others
    rw [remaining_cons, dotted_cons, strstr_dots_token free, separation]
    split
    · exact later
    · -- the text behind the dot does not start with another one
      have single : List.isPrefixOf ['.', '.'] ('.' :: remaining rest trailing) = false := by
        have stays := moveToNextToken_remaining others trailing
        cases shape : remaining rest trailing with
        | nil => rfl
        | cons c more =>
          rw [shape, moveToNextToken] at stays
          by_cases dot : c = '.'
          · rw [dot, List.dropWhile_cons_of_pos (by simp)] at stays
            have shorter := congrArg List.length stays
            have bound := (List.dropWhile_suffix (l := more) fun c : Char => decide (c = '.')).length_le
            simp only [List.length_cons] at shorter
            omega
          · simp [List.isPrefixOf, Ne.symm dot]
      rw [List.cons_append, List.nil_append, strstr, single]
      exact later

theorem changeToRegNamespaceName_eq (name : IsName tokens trailing) :
    changeToRegNamespaceName (some (dotted tokens trailing)) =
      if (dotted (replaceTokens startsInstance tokens) trailing).length < 256 then
        some (some (dotted (replaceTokens startsInstance tokens) trailing, tokens.any startsInstance))
      else none := by
  have whole : remaining tokens trailing = dotted tokens trailing := if_neg name.some
  have first := moveToNextToken_remaining name.proper trailing
  have noDots := strstr_dots_dotted name.proper trailing
  have loop := changeTokens_remaining name.proper trailing (Nat.le_refl _) false
    (show ([] : Text).length ≤ 256 from Nat.zero_le 256)
  have replaced : remaining (replaceTokens startsInstance tokens) trailing =
      dotted (replaceTokens startsInstance tokens) trailing := if_neg (by simpa [replaceTokens] using name.some)
  rw [whole] at first noDots
  rw [whole, replaced, List.nil_append, Bool.false_or] at loop
  obtain ⟨token, rest, shape⟩ := List.exists_cons_of_ne_nil name.some
  obtain ⟨nonempty, free⟩ := name.proper token (shape ▸ List.mem_cons_self)
  obtain ⟨c, more, letters⟩ := List.exists_cons_of_ne_nil nonempty
  have start : dotted tokens trailing = c :: (more ++ (separation rest trailing ++ remaining rest trailing)) := by
    rw [shape, dotted_cons, letters]
    rfl
  have given : dotted tokens trailing ≠ [] := by simp [start]
  have notDot : (dotted tokens trailing).head? ≠ some '.' := by
    rw [start, List.head?_cons]
    intro dot
    exact free (by simp [letters, Option.some.inj dot])
  have size : sizeOfToken (dotted tokens trailing) ≠ 0 := by
    rw [shape, dotted_cons, sizeOfToken_token free, letters]
    exact Nat.succ_ne_zero _
  have inside : ¬ (dotted tokens trailing).length > 255 := Nat.not_lt.mpr name.short
  simp only [changeToRegNamespaceName, given, noDots, notDot, first, size, inside, loop, or_self, decide_false,
    Option.isSome_none, Bool.or_false, Bool.false_eq_true, if_false]
  cases changed : tokens.any startsInstance with
  | true =>
    rw [written]
    split
    next fits => rfl
    next outside => rw [Option.bind_none, if_neg (by omega)]
  | false =>
    have short := name.short
    rw [replaceTokens_of_none changed, written, if_pos (by omega), if_pos (by omega)]
    rfl

def ReplacedRightly (token : Text) : Prop := startsInstance token = isInstanceNumber token

instance (token : Text) : Decidable (ReplacedRightly token) := inferInstanceAs (Decidable (_ = _))

theorem tr69ParamTableSymbol_ne {token : Text} (nonempty : token ≠ [])
    (number : startsInstance token = true ∨ isInstanceNumber token = true) : tr69ParamTableSymbol ≠ token := by
  obtain ⟨c, more, rfl⟩ := List.exists_cons_of_ne_nil nonempty
  intro same
  obtain ⟨rfl, -⟩ := List.cons.inj same
  revert number
  simp [startsInstance, isInstanceNumber]

theorem replaceTokens_eq_iff (proper : ∀ token ∈ tokens, IsToken '.' token) :
    replaceTokens startsInstance tokens = replaceTokens isInstanceNumber tokens ↔
      ∀ token ∈ tokens, ReplacedRightly token := by
  rw [replaceTokens, replaceTokens, List.map_inj_left]
  refine forall₂_congr fun token member => ?_
  have other := tr69ParamTableSymbol_ne (proper token member).1
  rw [ReplacedRightly]
  cases code : startsInstance token <;> cases wanted : isInstanceNumber token
  · simp
  · simpa using Ne.symm (other (.inr wanted))
  · simpa using other (.inl code)
  · simp

theorem replaceTokens_isToken (isInstance : Text → Bool) (proper : ∀ token ∈ tokens, IsToken '.' token) :
    ∀ token ∈ replaceTokens isInstance tokens, IsToken '.' token := by
  intro token member
  obtain ⟨before, present, rfl⟩ := List.mem_map.mp member
  split
  · exact ⟨by decide, by decide⟩
  · exact proper before present

theorem instance_numbers_normalised_iff (name : IsName tokens trailing) :
    Normalises tokens trailing ↔
      (∀ token ∈ tokens, ReplacedRightly token) ∧
        (dotted (replaceTokens isInstanceNumber tokens) trailing).length ≤ 255 := by
  rw [Normalises, changeToRegNamespaceName_eq name, ← replaceTokens_eq_iff name.proper]
  constructor
  · rintro ⟨fits, bChange, answer⟩
    refine ⟨?_, by omega⟩
    split at answer
    next =>
      simp only [Option.some.injEq, Prod.mk.injEq] at answer
      have joined := List.append_cancel_right answer.1
      exact joinTokens_injective '.' (replaceTokens_isToken _ name.proper) (replaceTokens_isToken _ name.proper) joined
    next => cases answer
  · rintro ⟨same, fits⟩
    refine ⟨by omega, tokens.any startsInstance, ?_⟩
    rw [same, if_pos (by omega)]

theorem instance_numbers_normalised_table :
    Normalises ["Device".toList, "AppTable".toList, "1".toList, "ItemTable".toList, "3".toList] true :=
  (instance_numbers_normalised_iff ⟨by decide, by decide, by decide⟩).mpr ⟨by decide, by decide⟩

-- `Device.3GPP.Enable` loses the name of its second token.
theorem digit_at_token_start_replaced :
    ¬ ∀ tokens trailing, IsName tokens trailing → Normalises tokens trailing := by
  intro always
  obtain ⟨-, bChange, answer⟩ := always ["Device".toList, "3GPP".toList, "Enable".toList] false
    ⟨by decide, by decide, by decide⟩
  cases bChange <;> revert answer <;> decide

end Names

end CcspCommon.NamespaceMgr
