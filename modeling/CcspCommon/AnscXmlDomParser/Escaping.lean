import CcspCommon.AnscXmlDomParser.CharReference

set_option autoImplicit false

namespace CcspCommon.AnscXmlDomParser

open CcspCommon.Shared

def xmlChars : Text := "<>&'\"".toList

def predefinedXmlCharSize : List Nat := [5, 4, 4, 6, 6]

-- `strchr` finds the NUL behind the text as well.
def strchr (text : Text) (c : Char) : Option Nat :=
  if c ∈ text ++ [nul] then some ((text ++ [nul]).idxOf c) else none

-- The pass that counts; `none` is a read behind the table of sizes.
def countChars : Text → Option Nat
  | [] => some 0
  | c :: rest =>
    match strchr xmlChars c with
    | none => countChars rest
    | some pFound => do
      let size ← predefinedXmlCharSize[pFound]?
      let charCount ← countChars rest
      some (size - 1 + charCount)

def escapeChar (c : Char) : Text :=
  match predefinedXmlEntities.find? fun entity => c = entity.uCharacter with
  | none => [c]
  | some entity => entity.encode

structure EscapedText where
  pOutString : Option Text
  pNewLength : Nat
  allocated : Nat
  deriving DecidableEq, Repr

def EscapedText.bytesWritten (escaped : EscapedText) : Nat :=
  match escaped.pOutString with
  | none => 0
  | some pOutString => pOutString.length + 1

def escapeChars : Option Text → Option EscapedText
  | none => some ⟨none, 0, 0⟩
  | some [] => some ⟨none, 0, 0⟩
  | some pInputString => do
    let charCount ← countChars pInputString
    if charCount = 0 then some ⟨some pInputString, pInputString.length, pInputString.length + 1⟩
    else
      let pOutString := pInputString.flatMap escapeChar
      some ⟨some pOutString, pOutString.length, pInputString.length + charCount + 16⟩

section Size

variable {s : Text}

def surplus (c : Char) : Nat :=
  if c = '<' then 4 else if c = '>' ∨ c = '&' then 3 else if c = '\'' ∨ c = '\"' then 5 else 0

theorem strchr_xmlChars {c : Char} (ordinary : c ∉ xmlChars ++ [nul]) : strchr xmlChars c = none := by
  simp [strchr, ordinary]

theorem mem_xmlChars (c : Char) : c ∈ xmlChars ↔ c = '<' ∨ c = '>' ∨ c = '&' ∨ c = '\'' ∨ c = '\"' := by
  simp [xmlChars]

theorem countChars_cons {c : Char} (plain : c ≠ nul) (rest : Text) :
    countChars (c :: rest) = (countChars rest).map (surplus c + ·) := by
  by_cases reserved : c ∈ xmlChars
  next =>
    have which := (mem_xmlChars c).mp reserved
    cases counted : countChars rest <;>
      obtain rfl | rfl | rfl | rfl | rfl := which <;>
      simp [countChars, strchr, xmlChars, predefinedXmlCharSize, surplus, counted]
  next =>
    have ordinary : c ∉ xmlChars ++ [nul] := by simp [reserved, plain]
    have free : surplus c = 0 := by
      have which := (mem_xmlChars c).not.mp reserved
      simp only [surplus]
      split_ifs <;> simp_all
    simp only [countChars, strchr_xmlChars ordinary, free]
    cases countChars rest <;> simp

theorem countChars_plain (plain : nul ∉ s) : countChars s = some (s.map surplus).sum := by
  induction s with
  | nil => rfl
  | cons c rest ih =>
    simp only [List.mem_cons, not_or] at plain
    rw [countChars_cons (Ne.symm plain.1), ih plain.2]
    rfl

theorem countChars_nul (found : nul ∈ s) : countChars s = none := by
  induction s with
  | nil => cases found
  | cons c rest ih =>
    by_cases here : c = nul
    next =>
      subst here
      rfl
    next =>
      have later : nul ∈ rest := by simpa [Ne.symm here] using found
      rw [countChars_cons here, ih later]
      rfl

theorem length_escapeChar (c : Char) :
    (escapeChar c).length + [c].count '<' = 1 + surplus c + [c].count '&' := by
  by_cases reserved : c ∈ xmlChars
  next =>
    have which := (mem_xmlChars c).mp reserved
    obtain rfl | rfl | rfl | rfl | rfl := which <;> decide
  next =>
    have which := (mem_xmlChars c).not.mp reserved
    simp only [not_or] at which
    obtain ⟨notLess, notGreater, notAmpersand, notApostrophe, notQuote⟩ := which
    simp [escapeChar, predefinedXmlEntities, surplus, *]

theorem length_flatMap_escapeChar (s : Text) :
    (s.flatMap escapeChar).length + s.count '<' = s.length + (s.map surplus).sum + s.count '&' := by
  induction s with
  | nil => rfl
  | cons c rest ih =>
    have first := length_escapeChar c
    have split (other : Char) : ([c] ++ rest).count other = [c].count other + rest.count other := List.count_append
    rw [List.singleton_append] at split
    simp only [List.flatMap_cons, List.length_append, split, List.length_cons, List.map_cons, List.sum_cons]
    omega

theorem count_le_surplus (s : Text) : s.count '&' ≤ (s.map surplus).sum := by
  induction s with
  | nil => exact Nat.le_refl _
  | cons c rest ih =>
    have first : [c].count '&' ≤ surplus c := by
      by_cases same : c = '&'
      · subst same
        decide
      · simp [same]
    have split : ([c] ++ rest).count '&' = [c].count '&' + rest.count '&' := List.count_append
    rw [List.singleton_append] at split
    simp only [split, List.map_cons, List.sum_cons]
    omega

theorem escapeChars_nul (found : nul ∈ s) : escapeChars (some s) = none := by
  cases s with
  | nil => cases found
  | cons c rest => simp [escapeChars, countChars_nul found]

theorem escapeChar_of_surplus {c : Char} (free : surplus c = 0) : escapeChar c = [c] := by
  have size := length_escapeChar c
  unfold surplus at free
  split_ifs at free with less middle quotes
  simp only [not_or] at middle quotes
  simp [escapeChar, predefinedXmlEntities, less, middle, quotes]

theorem flatMap_escapeChar_of_surplus (free : (s.map surplus).sum = 0) : s.flatMap escapeChar = s := by
  induction s with
  | nil => rfl
  | cons c rest ih =>
    simp only [List.map_cons, List.sum_cons, Nat.add_eq_zero_iff] at free
    rw [List.flatMap_cons, escapeChar_of_surplus free.1, ih free.2]
    rfl

theorem escapeChars_plain (nonempty : s ≠ []) (plain : nul ∉ s) :
    ∃ allocated, escapeChars (some s) =
        some ⟨some (s.flatMap escapeChar), (s.flatMap escapeChar).length, allocated⟩ ∧
      ((s.flatMap escapeChar).length + 1 ≤ allocated ↔ s.count '&' ≤ s.count '<' + 15) := by
  have size := length_flatMap_escapeChar s
  have most := count_le_surplus s
  obtain ⟨c, rest, rfl⟩ := List.exists_cons_of_ne_nil nonempty
  have counted := countChars_plain plain
  by_cases zero : ((c :: rest).map surplus).sum = 0
  next =>
    have same := flatMap_escapeChar_of_surplus zero
    refine ⟨(c :: rest).length + 1, ?_, ?_⟩
    · rw [same]
      simp only [escapeChars, counted, Option.bind_eq_bind, Option.bind_some, if_pos zero]
    · rw [same]
      omega
  next =>
    refine ⟨(c :: rest).length + ((c :: rest).map surplus).sum + 16, ?_, ?_⟩
    · simp only [escapeChars, counted, Option.bind_eq_bind, Option.bind_some, if_neg zero]
    · omega

theorem escapeChars_fits_iff (s : Text) :
    (∃ escaped, escapeChars (some s) = some escaped ∧ escaped.bytesWritten ≤ escaped.allocated) ↔
      nul ∉ s ∧ s.count '&' ≤ s.count '<' + 15 := by
  by_cases nonempty : s = []
  next =>
    subst nonempty
    simp [escapeChars, EscapedText.bytesWritten]
  next =>
    by_cases plain : nul ∉ s
    next =>
      obtain ⟨allocated, result, fits⟩ := escapeChars_plain nonempty plain
      simp only [result, Option.some.injEq, exists_eq_left', EscapedText.bytesWritten, plain, not_false_eq_true,
        true_and, fits]
    next =>
      have found : nul ∈ s := not_not.mp plain
      simp [escapeChars_nul found, found]

theorem sixteen_ampersands_overflow :
    ¬ ∃ escaped, escapeChars (some (List.replicate 16 '&')) = some escaped ∧
      escaped.bytesWritten ≤ escaped.allocated := by
  have result : escapeChars (some (List.replicate 16 '&')) =
      some ⟨some (List.replicate 16 "&amp;".toList).flatten, 80, 80⟩ := by decide
  rintro ⟨escaped, same, fits⟩
  obtain rfl := Option.some.inj (result.symm.trans same)
  exact absurd fits (by decide)

end Size

section RoundTrip

variable {ulStringLen : Nat} {out rest : Text} {s : Removal}

structure Decoded (ulStringLen : Nat) (out rest : Text) (s : Removal) : Prop where
  size : s.pString.length = ulStringLen
  ahead : s.pString.drop s.i = rest
  position : s.i + rest.length = ulStringLen
  text : s.pString.take s.ulNewStringLen = out
  length : s.ulNewStringLen = out.length
  behind : s.ulNewStringLen ≤ s.i
  unchanged : s.bPosChanged = false → s.ulNewStringLen = s.i

theorem Decoded.charAt (decoded : Decoded ulStringLen out rest s) (k : Nat) :
    AnscXmlDomParser.charAt s.pString (s.i + k) = AnscXmlDomParser.charAt rest k := by
  rw [← charAt_drop, decoded.ahead]

theorem take_set_succ {text : Text} {position : Nat} (within : position < text.length) (c : Char) :
    (text.set position c).take (position + 1) = text.take position ++ [c] := by
  rw [List.take_succ_eq_append_getElem (by simpa using within), List.take_set_of_le (Nat.le_refl _)]
  simp

theorem Decoded.putChar {read : Text} (decoded : Decoded ulStringLen out (read ++ rest) s) (nonempty : read ≠ [])
    {posSemicolon : Nat} (last : posSemicolon + 1 = s.i + read.length) (c : Char) :
    Decoded ulStringLen (out ++ [c]) rest (s.putChar posSemicolon c) := by
  have positive := List.length_pos_iff.mpr nonempty
  have position := decoded.position
  have behind := decoded.behind
  have size := decoded.size
  rw [List.length_append] at position
  constructor
  next => simpa [Removal.putChar] using size
  next =>
    simp only [Removal.putChar, last]
    rw [List.drop_set_of_lt (by omega), ← List.drop_drop, decoded.ahead]
    simp
  next =>
    simp only [Removal.putChar]
    omega
  next =>
    simp only [Removal.putChar]
    rw [take_set_succ (by omega), decoded.text]
  next => simp [Removal.putChar, decoded.length]
  next =>
    simp only [Removal.putChar]
    omega
  next => simp [Removal.putChar]

theorem Decoded.keepChar {c : Char} (decoded : Decoded ulStringLen out (c :: rest) s) :
    Decoded ulStringLen (out ++ [c]) rest s.keepChar := by
  have here : AnscXmlDomParser.charAt s.pString s.i = c := by simpa [AnscXmlDomParser.charAt] using decoded.charAt 0
  cases changed : s.bPosChanged with
  | true =>
    have last : s.i + 1 = s.i + [c].length := rfl
    have put := Decoded.putChar decoded (List.cons_ne_nil c []) last c
    have same : s.keepChar = s.putChar s.i c := by simp [Removal.keepChar, Removal.putChar, changed, here]
    rw [same]
    exact put
  | false =>
    have equal := decoded.unchanged changed
    have position := decoded.position
    have size := decoded.size
    rw [List.length_cons] at position
    constructor
    next => simpa [Removal.keepChar, changed] using size
    next =>
      simp only [Removal.keepChar, changed, Bool.false_eq_true, if_false]
      rw [← List.drop_drop, decoded.ahead]
      rfl
    next =>
      simp only [Removal.keepChar]
      omega
    next =>
      have within : s.ulNewStringLen < s.pString.length := by omega
      simp only [Removal.keepChar, changed, Bool.false_eq_true, if_false]
      have last : s.pString[s.ulNewStringLen] = c := by
        simpa [AnscXmlDomParser.charAt, ← equal, List.getD_eq_getElem?_getD, within] using here
      rw [List.take_succ_eq_append_getElem within, decoded.text, last]
    next => simp [Removal.keepChar, decoded.length]
    next => exact Nat.succ_le_succ decoded.behind
    next =>
      intro _
      simp [Removal.keepChar, equal]

theorem findSemicolon_eq {pString : Text} {left position posSemicolon : Nat} (behind : position ≤ posSemicolon)
    (within : posSemicolon < position + left) (semicolon : charAt pString posSemicolon = ';')
    (first : ∀ j, position ≤ j → j < posSemicolon → charAt pString j ≠ ';') :
    findSemicolon pString left position = posSemicolon := by
  have atMost := findSemicolon_le behind within semicolon
  have bounds := @findSemicolon_bounds pString left position
  have found := @charAt_findSemicolon pString left position (by omega)
  by_contra differs
  exact first _ bounds.1 (by omega) found

theorem charAt_append_left {first : Text} (second : Text) {k : Nat} (within : k < first.length) :
    charAt (first ++ second) k = charAt first k := by
  simp [charAt, List.getD_eq_getElem?_getD, List.getElem?_append_left within]

theorem encode_shape {entity : PredefinedEntity} (known : entity ∈ predefinedXmlEntities) :
    charAt entity.encode 0 = '&' ∧ charAt entity.encode 1 ≠ '#' ∧ 1 < entity.encode.length ∧
      charAt entity.encode (entity.encode.length - 1) = ';' ∧
      ∀ j < entity.encode.length - 1, charAt entity.encode j ≠ ';' := by
  simp only [predefinedXmlEntities, List.mem_cons, List.not_mem_nil, or_false] at known
  obtain rfl | rfl | rfl | rfl | rfl := known <;> decide

theorem find_entity {entity : PredefinedEntity} (known : entity ∈ predefinedXmlEntities) (rest : Text) :
    predefinedXmlEntities.find? (fun other => equalMemory (entity.encode ++ rest) other.encode entity.encode.length)
      = some entity := by
  simp only [predefinedXmlEntities, List.mem_cons, List.not_mem_nil, or_false] at known
  obtain rfl | rfl | rfl | rfl | rfl := known <;> rfl

theorem step_entity {entity : PredefinedEntity} (known : entity ∈ predefinedXmlEntities)
    (decoded : Decoded ulStringLen out (entity.encode ++ rest) s) :
    s.step ulStringLen = s.putChar (s.i + (entity.encode.length - 1)) entity.uCharacter := by
  obtain ⟨opening, second, long, semicolon, first⟩ := encode_shape known
  have position := decoded.position
  rw [List.length_append] at position
  have reference : charAt s.pString s.i = '&' := by
    have here := decoded.charAt 0
    rwa [charAt_append_left _ (by omega), opening] at here
  have numeric : charAt s.pString (s.i + 1) ≠ '#' := by
    rw [decoded.charAt, charAt_append_left _ long]
    exact second
  have notHex : ¬ hexEncode.isPrefixOf (s.pString.drop s.i) = true := fun begins =>
    numeric (charAt_of_isPrefixOf (k := 1) begins (by decide))
  have notDec : ¬ decEncode.isPrefixOf (s.pString.drop s.i) = true := fun begins =>
    numeric (charAt_of_isPrefixOf (k := 1) begins (by decide))
  have found : findSemicolon s.pString (ulStringLen - (s.i + 1)) (s.i + 1) =
      s.i + (entity.encode.length - 1) := by
    refine findSemicolon_eq (by omega) (by omega) ?_ ?_
    · rw [decoded.charAt, charAt_append_left _ (by omega), semicolon]
    · intro j behind before
      obtain ⟨k, rfl⟩ := Nat.exists_eq_add_of_le (Nat.le_of_succ_le behind)
      rw [decoded.charAt, charAt_append_left _ (by omega)]
      exact first k (by omega)
  have size : s.i + (entity.encode.length - 1) - s.i + 1 = entity.encode.length := by omega
  have inside : ¬ ulStringLen ≤ s.i + (entity.encode.length - 1) := by omega
  have character : s.entityChar (s.i + (entity.encode.length - 1)) = some entity.uCharacter := by
    simp only [Removal.entityChar, decoded.ahead, size, find_entity known, Option.map_some]
  rw [Removal.step, if_neg (not_not.mpr reference), if_neg notHex, if_neg notDec, Removal.translate]
  simp only [found, inside, if_false, character]

theorem Decoded.step {c : Char} (decoded : Decoded ulStringLen out (escapeChar c ++ rest) s) :
    Decoded ulStringLen (out ++ [c]) rest (s.step ulStringLen) := by
  cases found : predefinedXmlEntities.find? (fun entity => c = entity.uCharacter) with
  | none =>
    have alone : escapeChar c = [c] := by simp [escapeChar, found]
    have ordinary : c ≠ '&' := by
      rintro rfl
      exact absurd found (by decide)
    rw [alone] at decoded
    have here := decoded.charAt 0
    have same : AnscXmlDomParser.charAt s.pString s.i = c := here
    have turn : s.step ulStringLen = s.keepChar := by rw [Removal.step, if_pos (same ▸ ordinary)]
    rw [turn]
    exact decoded.keepChar
  | some entity =>
    have encoded : escapeChar c = entity.encode := by simp [escapeChar, found]
    have known := List.mem_of_find?_eq_some found
    have same : c = entity.uCharacter := by simpa using List.find?_some found
    obtain ⟨_, _, long, _⟩ := encode_shape known
    rw [encoded] at decoded
    rw [step_entity known decoded, same]
    exact decoded.putChar (by rintro empty; simp [empty] at long) (by omega) _

theorem Decoded.loop {text : Text} {turns : Nat} (enough : text.length ≤ turns)
    (decoded : Decoded ulStringLen out (text.flatMap escapeChar) s) :
    ∃ last, s.loop ulStringLen turns = some last ∧ Decoded ulStringLen (out ++ text) [] last := by
  induction text generalizing out s turns with
  | nil =>
    have position := decoded.position
    simp only [List.flatMap_nil, List.length_nil, Nat.add_zero] at position
    have done : ¬ s.i < ulStringLen := by omega
    refine ⟨s, ?_, by simpa using decoded⟩
    cases turns <;> simp [Removal.loop, done]
  | cons c text ih =>
    rw [List.flatMap_cons] at decoded
    have positive : 0 < (escapeChar c).length := by
      have size := length_escapeChar c
      by_cases less : c = '<'
      · subst less
        decide
      · simp only [List.count_singleton, beq_iff_eq, less, if_false] at size
        omega
    have position := decoded.position
    rw [List.length_append] at position
    have more : s.i < ulStringLen := by omega
    cases turns with
    | zero => simp at enough
    | succ turns =>
      have later := ih (Nat.le_of_succ_le_succ enough) decoded.step
      simpa [Removal.loop, more] using later

theorem removeCharReference_flatMap (text : Text) {turns : Nat} (enough : text.length ≤ turns) :
    ∃ removed, removeCharReference turns (some (text.flatMap escapeChar)) (text.flatMap escapeChar).length =
        some removed ∧ removed.pStringLen = text.length ∧ removed.text = text := by
  have initial : Decoded (text.flatMap escapeChar).length [] (text.flatMap escapeChar)
      ⟨text.flatMap escapeChar, 0, 0, false⟩ := by
    constructor <;> simp
  obtain ⟨last, ended, decoded⟩ := initial.loop enough
  have taken : last.pString.take last.ulNewStringLen = text := decoded.text
  have length : last.ulNewStringLen = text.length := by simpa using decoded.length
  refine ⟨_, by rw [removeCharReference, ended, Option.map_some], length, ?_⟩
  cases last.bPosChanged with
  | false => simpa [Removed.text] using taken
  | true =>
    have within : last.ulNewStringLen ≤ last.pString.length := by
      have behind := decoded.behind
      have position := decoded.position
      have size := decoded.size
      rw [List.length_nil] at position
      omega
    have kept : (last.pString.take last.ulNewStringLen).length = last.ulNewStringLen := by simp [within]
    simp only [Removed.text, zeroMemory, if_true, Option.getD_some, List.append_assoc]
    rw [List.take_append_of_le_length (by omega), List.take_of_length_le (by omega), taken]

theorem removeCharReference_escapeChars {text : Text} (plain : nul ∉ text) :
    ∃ escaped, escapeChars (some text) = some escaped ∧ ∀ turns, text.length ≤ turns →
      ∃ removed, removeCharReference turns escaped.pOutString escaped.pNewLength = some removed ∧
        removed.pStringLen = text.length ∧ removed.text = text := by
  by_cases nonempty : text = []
  next =>
    subst nonempty
    exact ⟨⟨none, 0, 0⟩, rfl, fun turns _ => ⟨⟨none, 0, true⟩, rfl, rfl, rfl⟩⟩
  next =>
    obtain ⟨allocated, result, _⟩ := escapeChars_plain nonempty plain
    exact ⟨_, result, fun turns enough => removeCharReference_flatMap text enough⟩

theorem removeCharReference_escapeChars_sample :
    ∃ escaped, escapeChars (some "&amp;<&#60;".toList) = some escaped ∧ ∀ turns, 11 ≤ turns →
      ∃ removed, removeCharReference turns escaped.pOutString escaped.pNewLength = some removed ∧
        removed.pStringLen = 11 ∧ removed.text = "&amp;<&#60;".toList :=
  @removeCharReference_escapeChars "&amp;<&#60;".toList (by decide)

end RoundTrip

end CcspCommon.AnscXmlDomParser
