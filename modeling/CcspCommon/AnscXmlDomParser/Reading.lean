import CcspCommon.AnscXmlDomParser.Encoding
import CcspCommon.AnscXmlDomParser.Scanning

set_option autoImplicit false

namespace CcspCommon.AnscXmlDomParser

open CcspCommon.Shared
open CcspCommon.AnscPlatform (ushort)

section WellFormed

def Escaped (text : Text) : Prop := '<' ∉ text ∧ '>' ∉ text ∧ '"' ∉ text

theorem Escaped.calm {text : Text} (escaped : Escaped text) : Calm text := ⟨escaped.1, escaped.2.1⟩

structure XmlAttribute.WellFormed (attr : XmlAttribute) : Prop where
  valid : isValidName attr.name = true
  fits : attr.name.length < maximumAttributeName
  escaped : Escaped attr.stringData

structure IsText (text : Text) : Prop where
  escaped : Escaped text
  first : ∃ c rest, text = c :: rest ∧ special c = false
  last : ∃ rest c, text = rest ++ [c] ∧ special c = false

/-- A node as the parser can read it back: with text or children but not both. Where an end tag is
written, the name must not make it look like the end of a comment. -/
structure XmlTag.WellFormed (tag : XmlTag) (isLeaf : Bool) : Prop where
  valid : isValidName tag.name = true
  fits : tag.name.length < maximumNodeName
  attributes : ∀ attr ∈ tag.attributes, attr.WellFormed
  text : ∀ text, tag.stringData = some text → isLeaf = true ∧ IsText text
  dashes : (isLeaf = false ∨ tag.stringData.isSome) → ¬ "---".toList <:+ tag.name

def XmlNodes.Counted (children : XmlNodes) : Prop := children.noHeadChild = true → children = .nil

theorem XmlNodes.counted_of_few {children : XmlNodes} (few : children.length < 65536) : children.Counted := by
  intro none
  cases children with
  | nil => rfl
  | cons tag below next =>
    rw [noHeadChild, decide_eq_true_eq, ushort, Nat.mod_eq_of_lt few, length] at none
    exact absurd none (Nat.succ_ne_zero _)

def XmlNodes.WellFormed : XmlNodes → Prop
  | nil => True
  | cons tag children next =>
    tag.WellFormed children.noHeadChild ∧ children.Counted ∧ children.WellFormed ∧ next.WellFormed

def XmlNode.WellFormed (node : XmlNode) : Prop :=
  node.tag.WellFormed node.children.noHeadChild ∧ node.children.Counted ∧ node.children.WellFormed

end WellFormed

variable {heap : BehindBuffer}

section Names

theorem isNameChar_of_mem {name : Text} (valid : isValidName name = true) {c : Char} (member : c ∈ name) :
    isNameChar c = true := by
  cases name with
  | nil => cases member
  | cons d rest =>
    simp only [isValidName, Bool.and_eq_true, List.all_eq_true] at valid
    rcases List.mem_cons.mp member with rfl | later
    · have first := valid.1
      simp only [isNameChar, Bool.or_eq_true] at first ⊢
      tauto
    · exact valid.2 c later

theorem not_mem_of_isValidName {name : Text} (valid : isValidName name = true) {c : Char}
    (bad : isNameChar c = false) : c ∉ name := by
  intro member
  rw [isNameChar_of_mem valid member] at bad
  cases bad

theorem exists_cons_of_isValidName {name : Text} (valid : isValidName name = true) :
    ∃ c rest, name = c :: rest ∧ isNameChar c = true ∧ c ≠ '-' := by
  cases name with
  | nil => cases valid
  | cons c rest =>
    refine ⟨c, rest, rfl, isNameChar_of_mem valid List.mem_cons_self, ?_⟩
    rintro rfl
    simp [isValidName, isLetter] at valid

theorem ne_of_isNameChar {c d : Char} (nameChar : isNameChar c = true) (bad : isNameChar d = false) : d ≠ c := by
  rintro rfl
  rw [nameChar] at bad
  cases bad

theorem special_of_isNameChar {c : Char} (nameChar : isNameChar c = true) : special c = false := by
  have differs (d : Char) (bad : isNameChar d = false) : c ≠ d := (ne_of_isNameChar nameChar bad).symm
  simp [special, differs ' ' (by decide), differs '\t' (by decide), differs '\r' (by decide),
    differs '\n' (by decide)]

theorem wanted_of_isNameChar {c : Char} (nameChar : isNameChar c = true) : wanted c = false := by
  have differs (d : Char) (bad : isNameChar d = false) : c ≠ d := (ne_of_isNameChar nameChar bad).symm
  simp [wanted, differs ' ' (by decide), differs '=' (by decide)]

theorem calm_of_isValidName {name : Text} (valid : isValidName name = true) : Calm name :=
  ⟨not_mem_of_isValidName valid (by decide), not_mem_of_isValidName valid (by decide)⟩

theorem copyName_eq {maximum : Nat} {invalid : AnscStatus} {name : Text} (valid : isValidName name = true)
    (fits : name.length < maximum) : copyName heap maximum invalid name = .ok name := by
  rw [copyName, if_neg (by omega), if_neg (by omega), if_pos valid]

end Names

section TagStart

variable {name : Text} (valid : isValidName name = true) (fits : name.length < maximumNodeName)

include valid fits

theorem readTagStart_plain {behind : Text} (small : FitsInt ('<' :: (name ++ '>' :: behind))) :
    readTagStart heap 0 ('<' :: (name ++ '>' :: behind)) = .ok ⟨name, '>' :: behind, '>' :: behind⟩ := by
  obtain ⟨c, rest, rfl, nameChar, -⟩ := exists_cons_of_isValidName valid
  have nodes := small.suffix (List.suffix_cons _ _)
  have skipped : (c :: rest ++ '>' :: behind).dropWhile special = c :: rest ++ '>' :: behind := by
    simp [special_of_isNameChar nameChar]
  -- the first space comes behind the tag
  have spaced : ((c :: rest ++ '>' :: behind).dropWhile fun c => !special c).length <
      ('>' :: behind).length := by
    have inside : ∀ d ∈ c :: rest ++ ['>'], (!special d) = true := by
      intro d member
      rcases List.mem_append.mp member with inName | tagEnd
      · simp [special_of_isNameChar (isNameChar_of_mem valid inName)]
      · rw [List.mem_singleton.mp tagEnd]
        decide
    have split : c :: rest ++ '>' :: behind = (c :: rest ++ ['>']) ++ behind := by simp
    rw [split, List.dropWhile_append_of_pos inside]
    exact Nat.lt_succ_of_le (List.dropWhile_suffix _).length_le
  -- and the character before the end of the tag belongs to the name
  have last : (('<' :: (c :: rest ++ '>' :: behind)).drop
      (('<' :: (c :: rest ++ '>' :: behind)).length - ('>' :: behind).length - 1)).head? ≠ some '/' := by
    intro slash
    have position : ('<' :: (c :: rest ++ '>' :: behind)).length - ('>' :: behind).length - 1 <
        ('<' :: c :: rest).length := by
      simp only [List.length_cons, List.length_append]
      omega
    have whole : '<' :: (c :: rest ++ '>' :: behind) = ('<' :: c :: rest) ++ '>' :: behind := rfl
    rw [whole] at slash position
    rw [List.head?_drop, List.getElem?_append_left position] at slash
    have member : '/' ∈ c :: rest := by
      rcases List.mem_cons.mp (List.mem_of_getElem? slash) with bracket | inName
      · exact absurd bracket (by decide)
      · exact inName
    exact not_mem_of_isValidName valid (by decide) member
  have shorter : ¬ (c :: rest ++ '>' :: behind).length < ('>' :: behind).length := by
    rw [List.length_append]
    omega
  have found := strstr_char (not_mem_of_isValidName valid (by decide : isNameChar '>' = false)) behind
  rw [readTagStart, gotoFirstCharExcept_eq nodes (by simp), skipped]
  simp only [bind, Except.bind]
  rw [found, gotoFirstWantedChar_eq nodes special (by simp)]
  simp only [if_pos spaced, if_neg last]
  rw [if_neg shorter, between_append, copyName_eq valid fits]

theorem readTagStart_spaced {inside behind : Text} (unclosed : '>' ∉ inside)
    (small : FitsInt ('<' :: (name ++ ' ' :: (inside ++ '>' :: behind)))) :
    readTagStart heap 0 ('<' :: (name ++ ' ' :: (inside ++ '>' :: behind))) =
      .ok ⟨name, ' ' :: (inside ++ '>' :: behind), '>' :: behind⟩ := by
  have nodes := small.suffix (List.suffix_cons _ _)
  have nonempty : name ++ ' ' :: (inside ++ '>' :: behind) ≠ [] := by simp
  have skipped : (name ++ ' ' :: (inside ++ '>' :: behind)).dropWhile special =
      name ++ ' ' :: (inside ++ '>' :: behind) := by
    obtain ⟨c, rest, rfl, nameChar, -⟩ := exists_cons_of_isValidName valid
    simp [special_of_isNameChar nameChar]
  have spaced : (name ++ ' ' :: (inside ++ '>' :: behind)).dropWhile (fun c => !special c) =
      ' ' :: (inside ++ '>' :: behind) := by
    refine dropWhile_segment ?_ (by decide) _
    intro c member
    simp [special_of_isNameChar (isNameChar_of_mem valid member)]
  have found : strstr ['>'] (name ++ ' ' :: (inside ++ '>' :: behind)) = some ('>' :: behind) := by
    have free : '>' ∉ name ++ ' ' :: inside := by
      simp [not_mem_of_isValidName valid (by decide : isNameChar '>' = false), unclosed]
    simpa using strstr_char free behind
  have later : ¬ (' ' :: (inside ++ '>' :: behind)).length < ('>' :: behind).length := by
    simp only [List.length_cons, List.length_append]
    omega
  rw [readTagStart, gotoFirstCharExcept_eq nodes nonempty, skipped]
  simp only [bind, Except.bind]
  rw [found, gotoFirstWantedChar_eq nodes special nonempty, spaced]
  simp only [if_neg later]
  rw [if_neg (by simp only [List.length_append, List.length_cons]; omega), between_append, copyName_eq valid fits]

end TagStart

section Attributes

theorem ok_bind {A B : Type} (a : A) (next : A → Except Stop B) :
    ((.ok a : Except Stop A) >>= next) = next a := rfl

inductive TagEnd : Text → Text → Prop
  | content (behind : Text) : TagEnd ('>' :: behind) ('>' :: behind)
  | simple (behind : Text) : TagEnd (' ' :: '/' :: '>' :: behind) ('>' :: behind)

theorem TagEnd.suffix {stop endOfNode : Text} (tagEnd : TagEnd stop endOfNode) : endOfNode <:+ stop := by
  cases tagEnd with
  | content behind => exact List.suffix_rfl
  | simple behind => exact ⟨[' ', '/'], rfl⟩

theorem TagEnd.atTagEnd {stop endOfNode : Text} (tagEnd : TagEnd stop endOfNode) (small : FitsInt stop) :
    atTagEnd 0 (stop.dropWhile special) = true := by
  have rest := small.suffix (List.dropWhile_suffix special)
  rw [AnscXmlDomParser.atTagEnd, Bool.or_eq_true, isStringStartWith_iff rest, isStringStartWith_iff rest]
  cases tagEnd with
  | content behind => exact .inr ⟨by simp, by simp [special]⟩
  | simple behind => exact .inl ⟨by simp, by simp [special]⟩

theorem readAttributeValue_eq {value more endOfNode : Text} (unquoted : '"' ∉ value)
    (small : FitsInt ('=' :: '"' :: (value ++ '"' :: more))) (behind : endOfNode <:+ more) :
    readAttributeValue 0 endOfNode ('=' :: '"' :: (value ++ '"' :: more)) = .ok (value, more) := by
  have quoted := small.suffix (List.suffix_cons _ _)
  have equalSign : isStringStartWith 0 ('=' :: '"' :: (value ++ '"' :: more)) ['='] = true :=
    (isStringStartWith_iff small ['=']).mpr ⟨by simp, by simp⟩
  have quote : isStringStartWith 0 ('"' :: (value ++ '"' :: more)) ['"'] = true :=
    (isStringStartWith_iff quoted ['"']).mpr ⟨by simp, by simp⟩
  have shorter := behind.length_le
  have inside : ¬ ('"' :: more).length ≤ endOfNode.length := by
    rw [List.length_cons]
    omega
  rw [readAttributeValue, gotoFirstCharExcept_eq small (by simp), List.dropWhile_cons_of_neg (by decide), ok_bind]
  dsimp only
  rw [equalSign, List.drop_one, List.tail_cons, gotoFirstCharExcept_eq quoted (by simp),
    List.dropWhile_cons_of_neg (by decide), ok_bind]
  dsimp only
  rw [if_neg (by decide), quote, List.drop_one, List.tail_cons, strstr_char unquoted, if_neg (by decide)]
  dsimp only
  rw [if_neg inside, between_append]
  rfl

theorem readAttributes_eq {stop endOfNode : Text} (tagEnd : TagEnd stop endOfNode)
    (attributes : List XmlAttribute) (wellFormed : ∀ attr ∈ attributes, attr.WellFormed) {fuel : Nat}
    (enough : attributes.length < fuel) (small : FitsInt (renderAttributes attributes ++ stop)) :
    readAttributes heap 0 endOfNode fuel (some ((renderAttributes attributes ++ stop).dropWhile special)) =
      .ok (attributes, stop.dropWhile special) := by
  induction attributes generalizing fuel with
  | nil =>
    obtain ⟨fuel, rfl⟩ := Nat.exists_eq_succ_of_ne_zero (Nat.ne_of_gt enough)
    have atEnd := tagEnd.atTagEnd (by simpa [renderAttributes] using small)
    rw [renderAttributes, List.nil_append, readAttributes, if_pos atEnd]
  | cons attr rest ih =>
    obtain ⟨fuel, rfl⟩ := Nat.exists_eq_succ_of_ne_zero (Nat.ne_of_gt (Nat.zero_lt_of_lt enough))
    obtain ⟨⟨valid, fits, escaped⟩, later⟩ := List.forall_mem_cons.mp wellFormed
    obtain ⟨c, name, isName, nameChar, -⟩ := exists_cons_of_isValidName valid
    set more := renderAttributes rest ++ stop with isMore
    have spelled : renderAttributes (attr :: rest) ++ stop =
        ' ' :: (attr.name ++ '=' :: '"' :: (attr.stringData ++ '"' :: more)) := by
      simp [renderAttributes, XmlAttribute.render, isMore]
    have skipped : (renderAttributes (attr :: rest) ++ stop).dropWhile special =
        attr.name ++ '=' :: '"' :: (attr.stringData ++ '"' :: more) := by
      rw [spelled, List.dropWhile_cons_of_pos (by decide), isName, List.cons_append,
        List.dropWhile_cons_of_neg (by simp [special_of_isNameChar nameChar])]
    rw [spelled] at small
    have start := small.suffix (List.suffix_cons _ _)
    have value := start.suffix (List.suffix_append attr.name _)
    have moreFits : FitsInt more := value.suffix ⟨'=' :: '"' :: (attr.stringData ++ ['"']), by simp⟩
    have behind : endOfNode <:+ more := tagEnd.suffix.trans (List.suffix_append _ _)
    have notAtEnd : atTagEnd 0 (attr.name ++ '=' :: '"' :: (attr.stringData ++ '"' :: more)) = false := by
      rw [atTagEnd, Bool.or_eq_false_iff]
      have spelledOut : attr.name ++ '=' :: '"' :: (attr.stringData ++ '"' :: more) =
          c :: (name ++ '=' :: '"' :: (attr.stringData ++ '"' :: more)) := by rw [isName]; rfl
      exact ⟨isStringStartWith_of_differs start spelledOut (ne_of_isNameChar nameChar (by decide)) _,
        isStringStartWith_of_differs start spelledOut (ne_of_isNameChar nameChar (by decide)) _⟩
    have ended : (attr.name ++ '=' :: '"' :: (attr.stringData ++ '"' :: more)).dropWhile (fun c => !wanted c) =
        '=' :: '"' :: (attr.stringData ++ '"' :: more) := by
      refine dropWhile_segment ?_ (by decide) _
      intro d member
      simp [wanted_of_isNameChar (isNameChar_of_mem valid member)]
    have shorter := behind.length_le
    have inside : ¬ ('=' :: '"' :: (attr.stringData ++ '"' :: more)).length ≤ endOfNode.length := by
      simp only [List.length_cons, List.length_append]
      omega
    have named : ¬ ('=' :: '"' :: (attr.stringData ++ '"' :: more)).length =
        (attr.name ++ '=' :: '"' :: (attr.stringData ++ '"' :: more)).length := by
      rw [isName]
      simp only [List.cons_append, List.length_cons, List.length_append]
      omega
    have moreNonempty : more ≠ [] := by
      cases tagEnd <;> simp [isMore]
    -- without a space the tag has to end here
    have separated : ¬ (decide (some (more.dropWhile special) = some more) && !atTagEnd 0 more) = true := by
      simp only [Bool.and_eq_true, decide_eq_true_eq, Option.some_inj, Bool.not_eq_true', not_and,
        Bool.not_eq_false]
      intro unspaced
      cases rest with
      | nil =>
        have atEnd := tagEnd.atTagEnd (by simpa [isMore, renderAttributes] using moreFits)
        simpa [isMore, renderAttributes, unspaced] using (congrArg (atTagEnd 0) unspaced).symm.trans
          (by simpa [isMore, renderAttributes] using atEnd)
      | cons other others =>
        have cut : more = ' ' :: (other.render ++ renderAttributes others ++ stop) := by
          simp [isMore, renderAttributes]
        rw [cut, List.dropWhile_cons_of_pos (by decide)] at unspaced
        have shorter := (List.dropWhile_suffix special (l := other.render ++ renderAttributes others ++ stop)).length_le
        rw [unspaced, List.length_cons] at shorter
        omega
    rw [skipped, readAttributes, notAtEnd, if_neg Bool.false_ne_true,
      gotoFirstWantedChar_eq start wanted (by simp), ended]
    dsimp only
    rw [if_neg inside, if_neg named, between_append, copyName_eq valid fits, ok_bind,
      readAttributeValue_eq escaped.2.2 value behind, ok_bind]
    dsimp only
    rw [gotoFirstCharExcept_eq moreFits moreNonempty, ok_bind, if_neg separated,
      ih later (by simpa using enough) moreFits, ok_bind]

end Attributes

section Content

theorem readText_text {text behind : Text} (isText : IsText text) (small : FitsInt (text ++ '<' :: behind)) :
    readText 0 (text ++ '<' :: behind) = .ok (some text, '<' :: behind) := by
  have skipped : (text ++ '<' :: behind).dropWhile special = text ++ '<' :: behind := by
    obtain ⟨c, rest, rfl, blank⟩ := isText.first
    rw [List.cons_append, List.dropWhile_cons_of_neg (by simp [blank])]
  have size : getStringEndExcept (text ++ '<' :: behind)
      ((text ++ '<' :: behind).length - ('<' :: behind).length) = text.length := by
    have short : text.length < 2147483648 := by
      have whole := small.small
      rw [List.length_append] at whole
      omega
    rw [getStringEndExcept, List.length_append, Nat.add_sub_cancel, int32_of_small short, Int.toNat_natCast,
      List.take_left]
    obtain ⟨rest, c, rfl, blank⟩ := isText.last
    rw [List.rdropWhile_concat_neg _ _ _ (by simp [blank])]
  have some : text.length ≠ 0 := by
    obtain ⟨c, rest, rfl, -⟩ := isText.first
    simp
  have next : strstr ['<'] ('<' :: behind) = Option.some ('<' :: behind) :=
    strstr_char List.not_mem_nil behind
  rw [readText, gotoFirstCharExcept_eq small (by simp), skipped, ok_bind]
  dsimp only
  rw [strstr_char isText.escaped.1]
  dsimp only
  rw [size, if_neg some, List.take_left, List.drop_left, next]

theorem readText_none {space behind : Text} (blank : ∀ c ∈ space, special c = true)
    (small : FitsInt (space ++ '<' :: behind)) :
    readText 0 (space ++ '<' :: behind) = .ok (none, '<' :: behind) := by
  have next : strstr ['<'] ('<' :: behind) = some ('<' :: behind) := strstr_char List.not_mem_nil behind
  have size : getStringEndExcept ('<' :: behind) (('<' :: behind).length - ('<' :: behind).length) = 0 := by
    rw [Nat.sub_self, getStringEndExcept, int32_of_small (by decide)]
    rfl
  rw [readText, gotoFirstCharExcept_eq small (by simp), dropWhile_segment blank (by decide), ok_bind]
  dsimp only
  rw [next]
  dsimp only
  rw [size, if_pos rfl, List.drop_zero, next]

theorem readEndTag_eq {name behind : Text} (valid : isValidName name = true)
    (small : FitsInt (endTag name ++ behind)) :
    readEndTag 0 name (endTag name ++ behind) = .ok (some (behind.dropWhile special)) := by
  have spelled : endTag name ++ behind = '<' :: '/' :: (name ++ '>' :: '\n' :: behind) := by simp [endTag]
  rw [spelled] at small ⊢
  have named : FitsInt (name ++ '>' :: '\n' :: behind) := small.suffix ⟨['<', '/'], rfl⟩
  have tagEnd := named.suffix (List.suffix_append name _)
  have line := tagEnd.suffix (List.suffix_cons _ _)
  have same : isStringStartWith 0 (name ++ '>' :: '\n' :: behind) name = true := by
    rw [isStringStartWith_iff named]
    obtain ⟨c, rest, rfl, -, -⟩ := exists_cons_of_isValidName valid
    exact ⟨by simp, List.prefix_append _ _⟩
  have dropped : ('<' :: '/' :: (name ++ '>' :: '\n' :: behind)).drop 2 = name ++ '>' :: '\n' :: behind := rfl
  rw [readEndTag, dropped, same, if_neg (by decide), List.drop_left, gotoFirstCharExcept_eq tagEnd (by simp),
    List.dropWhile_cons_of_neg (by decide), ok_bind]
  dsimp only
  rw [if_neg (by simp), List.drop_one, List.tail_cons, gotoFirstCharExcept_eq line (by simp),
    List.dropWhile_cons_of_pos (by decide)]

end Content

end CcspCommon.AnscXmlDomParser
