import CcspCommon.AnscXmlDomParser.Reading

set_option autoImplicit false

namespace CcspCommon.AnscXmlDomParser

open CcspCommon.Shared

variable {heap : BehindBuffer}

section Tags

theorem calm_renderAttributes {attributes : List XmlAttribute} (wellFormed : ∀ attr ∈ attributes, attr.WellFormed) :
    Calm (renderAttributes attributes) := by
  induction attributes with
  | nil => exact ⟨List.not_mem_nil, List.not_mem_nil⟩
  | cons attr rest ih =>
    obtain ⟨⟨valid, -, escaped⟩, later⟩ := List.forall_mem_cons.mp wellFormed
    have name := calm_of_isValidName valid
    have value := escaped.calm
    have others := ih later
    constructor
    · simp [renderAttributes, XmlAttribute.render, name.1, value.1, others.1]
    · simp [renderAttributes, XmlAttribute.render, name.2, value.2, others.2]

theorem length_le_renderAttributes (attributes : List XmlAttribute) :
    attributes.length ≤ (renderAttributes attributes).length := by
  induction attributes with
  | nil => exact Nat.le_refl 0
  | cons attr rest ih =>
    simp only [renderAttributes, List.length_cons, List.length_append]
    omega

variable {name : Text} (valid : isValidName name = true) (fits : name.length < maximumNodeName)
  {attributes : List XmlAttribute} (wellFormed : ∀ attr ∈ attributes, attr.WellFormed)

include valid fits wellFormed

theorem fillContentOfNode_tag (level fuel : Nat) {stop endOfNode : Text} (tagEnd : TagEnd stop endOfNode)
    (small : FitsInt ('<' :: (name ++ (renderAttributes attributes ++ stop)))) :
    fillContentOfNode heap 0 level (fuel + 1) ('<' :: (name ++ (renderAttributes attributes ++ stop))) =
      if ['/', '>'].isPrefixOf (stop.dropWhile special) then
        .ok (⟨⟨name, attributes, none⟩, .nil⟩, some ((stop.dropWhile special).drop 2))
      else (do
        let (stringData, nodes) ← readText 0 (endOfNode.drop 1)
        let (children, last) ← fillChildren heap 0 level fuel (some nodes)
        let behind ← readEndTag 0 name last
        .ok (⟨⟨name, attributes, stringData⟩, children⟩, behind)) := by
  have inTag := small.suffix ⟨'<' :: name, rfl⟩
  by_cases plain : attributes = [] ∧ stop = endOfNode
  · obtain ⟨rfl, rfl⟩ := plain
    have opened : ∃ behind, stop = '>' :: behind := by
      cases tagEnd with
      | content behind => exact ⟨behind, rfl⟩
    obtain ⟨behind, rfl⟩ := opened
    rw [fillContentOfNode]
    simp only [renderAttributes, List.nil_append] at small ⊢
    rw [readTagStart_plain valid fits small, ok_bind]
    dsimp only
    rw [if_neg (by simp), if_neg (Nat.lt_irrefl _), ok_bind]
    rfl
  · -- behind the name there is a space
    have spaced : ∃ inside behind, renderAttributes attributes ++ stop = ' ' :: (inside ++ '>' :: behind) ∧
        endOfNode = '>' :: behind ∧ '>' ∉ inside := by
      have calm := calm_renderAttributes wellFormed
      cases attributes with
      | nil =>
        cases tagEnd with
        | content behind => exact absurd ⟨rfl, rfl⟩ plain
        | simple behind => exact ⟨['/'], behind, rfl, rfl, by decide⟩
      | cons attr rest =>
        simp only [renderAttributes, Calm, List.mem_cons, not_or] at calm
        cases tagEnd with
        | content behind => exact ⟨_, behind, by simp [renderAttributes], rfl, calm.2.2⟩
        | simple behind =>
          refine ⟨attr.render ++ renderAttributes rest ++ [' ', '/'], behind, by simp [renderAttributes], rfl, ?_⟩
          simpa using calm.2.2
    obtain ⟨inside, behind, spelled, rfl, unclosed⟩ := spaced
    have start := small
    rw [spelled] at start
    have enough : attributes.length < (' ' :: (inside ++ '>' :: behind)).length := by
      have shorter := length_le_renderAttributes attributes
      rw [← spelled, List.length_append]
      cases tagEnd <;> simp only [List.length_cons] <;> omega
    have longer : ('>' :: behind).length < (' ' :: (inside ++ '>' :: behind)).length := by
      simp only [List.length_cons, List.length_append]
      omega
    have read := @readAttributes_eq heap _ _ tagEnd attributes wellFormed _ enough inTag
    have skipped := gotoFirstCharExcept_eq inTag (by rw [spelled]; simp)
    rw [spelled] at skipped read
    rw [fillContentOfNode, spelled, readTagStart_spaced valid fits unclosed start, ok_bind]
    dsimp only
    rw [if_neg (by simp), if_pos longer, skipped, ok_bind, read, ok_bind]

end Tags

section Nodes

-- What is left behind a node: the line feed of a simple tag is not skipped with it.
def behindNode (tag : XmlTag) (isLeaf : Bool) (rest : Text) : Text :=
  if isLeaf && tag.stringData.isNone then '\n' :: rest else rest.dropWhile special

theorem behindNode_dropWhile (tag : XmlTag) (isLeaf : Bool) (rest : Text) :
    (behindNode tag isLeaf rest).dropWhile special = rest.dropWhile special := by
  rw [behindNode]
  split_ifs
  · exact List.dropWhile_cons_of_pos (by decide)
  · exact List.dropWhile_idempotent special rest

theorem blank_indent (level : Nat) : ∀ c ∈ indent level, special c = true := by
  intro c member
  rw [List.eq_of_mem_replicate member]
  decide

theorem fillChildren_end (level fuel : Nat) {more : Text} (small : FitsInt ('<' :: '/' :: more)) :
    fillChildren heap 0 level (fuel + 1) (some ('<' :: '/' :: more)) = .ok (.nil, '<' :: '/' :: more) := by
  have atEnd : isStringStartWith 0 ('<' :: '/' :: more) ['<', '/'] = true :=
    (isStringStartWith_iff small _).mpr ⟨by simp, by simp⟩
  rw [fillChildren, if_pos atEnd]

theorem XmlNodes.render_starts (nodes : XmlNodes) (level last : Nat) (more : Text) :
    ∃ space tag, nodes.render level ++ (indent last ++ '<' :: more) = space ++ '<' :: tag ∧
      ∀ c ∈ space, special c = true := by
  cases nodes with
  | nil => exact ⟨indent last, more, rfl, blank_indent last⟩
  | cons tag children next =>
    refine ⟨indent level, tag.name ++ (renderAttributes tag.attributes ++
      (tag.closing level children.noHeadChild (children.render (level + 1)) ++
        (next.render level ++ (indent last ++ '<' :: more)))), ?_, blank_indent level⟩
    simp only [render, XmlTag.render, XmlTag.opening, List.cons_append, List.append_assoc]

variable {tag : XmlTag} {children : XmlNodes} (wellFormed : tag.WellFormed children.noHeadChild)
  (counted : children.Counted)

include wellFormed counted

theorem fillContentOfNode_render (level lineLevel : Nat) {fuel : Nat} {rest : Text}
    (small : FitsInt (tag.render lineLevel children.noHeadChild (children.render (lineLevel + 1)) ++ rest))
    (enough : (tag.render lineLevel children.noHeadChild (children.render (lineLevel + 1)) ++ rest).length ≤ fuel)
    (below : ∀ {fuel : Nat} {more : Text},
      FitsInt (children.render (lineLevel + 1) ++ (indent lineLevel ++ '<' :: '/' :: more)) →
      (children.render (lineLevel + 1) ++ (indent lineLevel ++ '<' :: '/' :: more)).length < fuel →
      fillChildren heap 0 level fuel
        (some ((children.render (lineLevel + 1) ++ (indent lineLevel ++ '<' :: '/' :: more)).dropWhile special)) =
        .ok (children, '<' :: '/' :: more)) :
    fillContentOfNode heap 0 level fuel
      (tag.render lineLevel children.noHeadChild (children.render (lineLevel + 1)) ++ rest) =
      .ok (⟨tag, children⟩, some (behindNode tag children.noHeadChild rest)) := by
  obtain ⟨name, attributes, stringData⟩ := tag
  obtain ⟨fuel, rfl⟩ : ∃ less, fuel = less + 1 := by
    refine Nat.exists_eq_succ_of_ne_zero (Nat.ne_of_gt (Nat.lt_of_lt_of_le ?_ enough))
    simp [XmlTag.render, XmlTag.opening]
  by_cases leaf : children.noHeadChild = true
  · obtain rfl := counted leaf
    cases stringData with
    | none =>
      have spelled : (⟨name, attributes, none⟩ : XmlTag).render lineLevel XmlNodes.nil.noHeadChild
          (XmlNodes.nil.render (lineLevel + 1)) ++ rest =
          '<' :: (name ++ (renderAttributes attributes ++ (' ' :: '/' :: '>' :: '\n' :: rest))) := by
        simp [XmlTag.render, XmlTag.opening, XmlTag.closing, XmlTag.dataSize, XmlTag.text]
      rw [spelled] at small ⊢
      rw [fillContentOfNode_tag wellFormed.valid wellFormed.fits wellFormed.attributes level fuel
        (.simple ('\n' :: rest)) small]
      rfl
    | some text =>
      have isText := (wellFormed.text text rfl).2
      have spelled : (⟨name, attributes, some text⟩ : XmlTag).render lineLevel XmlNodes.nil.noHeadChild
          (XmlNodes.nil.render (lineLevel + 1)) ++ rest =
          '<' :: (name ++ (renderAttributes attributes ++ ('>' :: (text ++ (endTag name ++ rest))))) := by
        obtain ⟨c, others, rfl, -⟩ := isText.first
        simp [XmlTag.render, XmlTag.opening, XmlTag.closing, XmlTag.dataSize, XmlTag.text]
      rw [spelled] at small enough ⊢
      have inText : FitsInt (text ++ (endTag name ++ rest)) :=
        small.suffix ⟨'<' :: (name ++ (renderAttributes attributes ++ ['>'])), by simp⟩
      have inEnd := inText.suffix (List.suffix_append text _)
      obtain ⟨fuel, rfl⟩ : ∃ less, fuel = less + 1 := by
        simp only [List.length_cons, List.length_append] at enough
        exact Nat.exists_eq_succ_of_ne_zero (by omega)
      rw [fillContentOfNode_tag wellFormed.valid wellFormed.fits wellFormed.attributes level _
        (.content (text ++ (endTag name ++ rest))) small]
      rw [if_neg (by simp [special]), List.drop_one, List.tail_cons]
      have read : readText 0 (text ++ (endTag name ++ rest)) = .ok (some text, endTag name ++ rest) :=
        readText_text isText inText
      have noChildren : fillChildren heap 0 level (fuel + 1) (some (endTag name ++ rest)) =
          .ok (.nil, endTag name ++ rest) := fillChildren_end level fuel inEnd
      rw [read, ok_bind]
      dsimp only
      rw [noChildren, ok_bind]
      dsimp only
      rw [readEndTag_eq wellFormed.valid inEnd, ok_bind]
      rfl
  · have noText : stringData = none := by
      cases stringData with
      | none => rfl
      | some text => simpa [leaf] using (wellFormed.text text rfl).1
    subst noText
    set behindTag := children.render (lineLevel + 1) ++ (indent lineLevel ++ (endTag name ++ rest)) with isBehind
    have spelled : (⟨name, attributes, none⟩ : XmlTag).render lineLevel children.noHeadChild
        (children.render (lineLevel + 1)) ++ rest =
        '<' :: (name ++ (renderAttributes attributes ++ ('>' :: '\n' :: behindTag))) := by
      simp [XmlTag.render, XmlTag.opening, XmlTag.closing, textLine, leaf, isBehind]
    rw [spelled] at small enough ⊢
    have inLine : FitsInt ('\n' :: behindTag) :=
      small.suffix ⟨'<' :: (name ++ (renderAttributes attributes ++ ['>'])), by simp⟩
    have inNodes := inLine.suffix (List.suffix_cons _ _)
    have inEnd : FitsInt (endTag name ++ rest) :=
      inNodes.suffix ⟨children.render (lineLevel + 1) ++ indent lineLevel, by simp [isBehind]⟩
    obtain ⟨space, first, starts, blank⟩ :=
      children.render_starts (lineLevel + 1) lineLevel ('/' :: (name ++ ['>', '\n']) ++ rest)
    have startsHere : behindTag = space ++ '<' :: first := starts
    have read : readText 0 ('\n' :: behindTag) = .ok (none, behindTag.dropWhile special) := by
      have blankLine : ∀ c ∈ '\n' :: space, special c = true := by
        intro c member
        rcases List.mem_cons.mp member with rfl | inSpace
        · decide
        · exact blank c inSpace
      rw [startsHere] at inLine ⊢
      rw [dropWhile_segment blank (by decide)]
      exact readText_none blankLine inLine
    have shorter : behindTag.length < fuel := by
      simp only [List.length_cons, List.length_append] at enough
      omega
    have childrenRead : fillChildren heap 0 level fuel (some (behindTag.dropWhile special)) =
        .ok (children, endTag name ++ rest) := below inNodes shorter
    rw [fillContentOfNode_tag wellFormed.valid wellFormed.fits wellFormed.attributes level fuel
      (.content ('\n' :: behindTag)) small]
    rw [if_neg (by simp [special]), List.drop_one, List.tail_cons, read, ok_bind]
    dsimp only
    rw [childrenRead, ok_bind]
    dsimp only
    rw [readEndTag_eq wellFormed.valid inEnd, ok_bind, behindNode]
    simp [leaf]

end Nodes

section Children

theorem findNode_tag (level : Nat) {c : Char} {more : Text} (notComment : c ≠ '!')
    (small : FitsInt ('<' :: c :: more)) : findNode 0 (level + 1) ('<' :: c :: more) = .ok ('<' :: c :: more) := by
  have skipped : ('<' :: c :: more).dropWhile special = '<' :: c :: more := List.dropWhile_cons_of_neg (by decide)
  have comment : ¬ isStringStartWith 0 ('<' :: c :: more) "<!--".toList = true := by
    rw [isStringStartWith_iff small]
    rintro ⟨-, starts⟩
    exact notComment (List.cons_prefix_cons.mp (List.cons_prefix_cons.mp starts).2).1.symm
  have found : strstr ['<'] ('<' :: c :: more) = some ('<' :: c :: more) := strstr_char List.not_mem_nil _
  rw [findNode, ite_self, gotoFirstCharExcept_eq small (by simp), skipped, ok_bind]
  dsimp only
  rw [if_neg (Nat.succ_ne_zero level), gotoFirstCharExcept_eq small (by simp), skipped, ok_bind]
  dsimp only
  rw [skipComments, skipMarkup, if_neg comment, ok_bind, found]

theorem fillChildren_render {nodes : XmlNodes} (wellFormed : nodes.WellFormed) (level lineLevel last : Nat)
    {fuel : Nat} {more : Text}
    (small : FitsInt (nodes.render lineLevel ++ (indent last ++ '<' :: '/' :: more)))
    (enough : (nodes.render lineLevel ++ (indent last ++ '<' :: '/' :: more)).length < fuel) :
    fillChildren heap 0 level fuel
      (some ((nodes.render lineLevel ++ (indent last ++ '<' :: '/' :: more)).dropWhile special)) =
      .ok (nodes, '<' :: '/' :: more) := by
  induction nodes generalizing level lineLevel last fuel more with
  | nil =>
    obtain ⟨fuel, rfl⟩ := Nat.exists_eq_succ_of_ne_zero (Nat.ne_of_gt (Nat.zero_lt_of_lt enough))
    rw [XmlNodes.render, List.nil_append, dropWhile_segment (blank_indent last) (by decide)]
    exact fillChildren_end level fuel (small.suffix ⟨indent last, rfl⟩)
  | cons tag children next childrenIh nextIh =>
    obtain ⟨tagWell, counted, childrenWell, nextWell⟩ := wellFormed
    obtain ⟨fuel, rfl⟩ := Nat.exists_eq_succ_of_ne_zero (Nat.ne_of_gt (Nat.zero_lt_of_lt enough))
    set rest := next.render lineLevel ++ (indent last ++ '<' :: '/' :: more) with isRest
    set content := tag.render lineLevel children.noHeadChild (children.render (lineLevel + 1)) ++ rest with isContent
    have spelled : (XmlNodes.cons tag children next).render lineLevel ++ (indent last ++ '<' :: '/' :: more) =
        indent lineLevel ++ content := by
      simp [XmlNodes.render, isContent, isRest]
    rw [spelled] at small enough ⊢
    have inContent := small.suffix (List.suffix_append _ _)
    have inRest := inContent.suffix (List.suffix_append _ _)
    obtain ⟨c, name, isName, nameChar, -⟩ := exists_cons_of_isValidName tagWell.valid
    obtain ⟨inside, starts⟩ : ∃ inside, content = '<' :: c :: inside := by
      simp only [isContent, XmlTag.render, XmlTag.opening, isName, List.cons_append]
      exact ⟨_, rfl⟩
    have skipped : (indent lineLevel ++ content).dropWhile special = content := by
      rw [starts]
      exact dropWhile_segment (blank_indent lineLevel) (by decide) _
    have opened : ¬ isStringStartWith 0 content ['<', '/'] = true := by
      rw [isStringStartWith_iff inContent, starts]
      rintro ⟨-, prefixed⟩
      exact ne_of_isNameChar nameChar (by decide)
        (List.cons_prefix_cons.mp (List.cons_prefix_cons.mp prefixed).2).1
    have found : findNode 0 (level + 1) content = .ok content := by
      rw [starts] at inContent ⊢
      exact findNode_tag level (ne_of_isNameChar nameChar (by decide)).symm inContent
    have contentEnough : content.length ≤ fuel := by
      rw [List.length_append] at enough
      omega
    have childRead : fillContentOfNode heap 0 (level + 1) fuel content =
        .ok (⟨tag, children⟩, some (behindNode tag children.noHeadChild rest)) :=
      fillContentOfNode_render tagWell counted (level + 1) lineLevel inContent contentEnough
        fun fits longer => childrenIh childrenWell (level + 1) (lineLevel + 1) lineLevel fits longer
    have shorter : rest.length < fuel := by
      simp only [List.length_append, isContent, XmlTag.render, XmlTag.opening, List.length_cons] at enough
      omega
    have nextRead : fillChildren heap 0 level fuel (some (rest.dropWhile special)) = .ok (next, '<' :: '/' :: more) :=
      nextIh nextWell level lineLevel last inRest shorter
    have nonempty : behindNode tag children.noHeadChild rest ≠ [] := by
      obtain ⟨space, others, whole, blank⟩ := next.render_starts lineLevel last ('/' :: more)
      rw [behindNode]
      split_ifs
      · simp
      · rw [isRest, whole, dropWhile_segment blank (by decide)]
        simp
    have inBehind : FitsInt (behindNode tag children.noHeadChild rest) := by
      rw [behindNode]
      split_ifs
      · refine ⟨Nat.lt_of_le_of_lt ?_ inContent.small⟩
        simp only [isContent, List.length_cons, List.length_append, XmlTag.render, XmlTag.opening]
        omega
      · exact inRest.suffix (List.dropWhile_suffix _)
    rw [skipped, fillChildren, if_neg opened, found, ok_bind, if_neg opened, childRead, ok_bind]
    dsimp only
    rw [gotoFirstCharExcept_eq inBehind nonempty, behindNode_dropWhile, ok_bind, nextRead]
    rfl

end Children

section Quietness

theorem Quiet.indent {text : Text} (quiet : Quiet text) (level : Nat) : Quiet (text ++ indent level) := by
  rw [AnscXmlDomParser.indent]
  induction level * spacesPerLevel with
  | zero => simpa using quiet
  | succ n ih =>
    rw [List.replicate_succ', ← List.append_assoc, quiet_around (by decide)]
    exact ⟨ih, by decide⟩

theorem renderAttributes_ends {attributes : List XmlAttribute} (some : attributes ≠ []) :
    ∃ front, renderAttributes attributes = front ++ ['"'] := by
  induction attributes with
  | nil => exact absurd rfl some
  | cons attr rest ih =>
    by_cases last : rest = []
    · refine ⟨' ' :: (attr.name ++ '=' :: '"' :: attr.stringData), ?_⟩
      simp [last, renderAttributes, XmlAttribute.render]
    · obtain ⟨front, ends⟩ := ih last
      exact ⟨' ' :: (attr.render ++ front), by simp [renderAttributes, ends]⟩

variable {name : Text} (valid : isValidName name = true)

include valid

theorem quiet_opened {first second : Text} (quiet : Quiet first) (inside : Quiet (name ++ second)) :
    Quiet (first ++ '<' :: (name ++ second)) := by
  obtain ⟨c, rest, rfl, nameChar, noDash⟩ := exists_cons_of_isValidName valid
  have outside : c ≠ '<' ∧ c ≠ '>' ∧ c ≠ '-' :=
    ⟨(ne_of_isNameChar nameChar (by decide)).symm, (ne_of_isNameChar nameChar (by decide)).symm, noDash⟩
  exact quiet_tag outside quiet (inside.suffix (List.suffix_cons _ _))

theorem quiet_endTag {first : Text} (quiet : Quiet first) (dashes : ¬ "---".toList <:+ name) :
    Quiet (first ++ '<' :: '/' :: (name ++ ['>'])) :=
  quiet_tag (by decide) quiet (quiet_tagEnd (calm_of_isValidName valid) ⟨by simp, by simp⟩ dashes)

variable {attributes : List XmlAttribute} (wellFormed : ∀ attr ∈ attributes, attr.WellFormed)

include wellFormed

theorem quiet_simpleTag {first : Text} (quiet : Quiet first) :
    Quiet (first ++ '<' :: (name ++ (renderAttributes attributes ++ [' ', '/', '>']))) := by
  have calm := (calm_of_isValidName valid).append (calm_renderAttributes wellFormed)
  apply quiet_opened valid quiet
  rw [← List.append_assoc, quiet_around (by decide)]
  exact ⟨calm.quiet, by decide⟩

theorem quiet_startTag {first text : Text} (quiet : Quiet first) (textCalm : Calm text)
    (dashes : ¬ "---".toList <:+ name) :
    Quiet (first ++ '<' :: (name ++ (renderAttributes attributes ++ '>' :: text))) := by
  have calm := (calm_of_isValidName valid).append (calm_renderAttributes wellFormed)
  have last : ¬ "---".toList <:+ name ++ renderAttributes attributes := by
    by_cases none : attributes = []
    · simpa [none, renderAttributes] using dashes
    · obtain ⟨front, ends⟩ := renderAttributes_ends none
      rintro ⟨before, whole⟩
      rw [ends] at whole
      exact absurd (congrArg List.getLast? whole) (by simp)
  apply quiet_opened valid quiet
  rw [← List.append_assoc]
  exact quiet_tagEnd calm textCalm last

end Quietness

section Root

theorem XmlTag.WellFormed.quiet {tag : XmlTag} {isLeaf : Bool} (wellFormed : tag.WellFormed isLeaf) (level : Nat)
    {first childrenText rest : Text} (before : Quiet first) (children : Quiet childrenText) (behind : Quiet rest) :
    Quiet (first ++ (tag.render level isLeaf childrenText ++ rest)) := by
  obtain ⟨name, attributes, stringData⟩ := tag
  obtain ⟨valid, -, attributesWell, text, dashes⟩ := wellFormed
  cases stringData with
  | none =>
    cases isLeaf with
    | true =>
      have spelled : first ++ ((⟨name, attributes, none⟩ : XmlTag).render level true childrenText ++ rest) =
          (first ++ '<' :: (name ++ (renderAttributes attributes ++ [' ', '/', '>']))) ++ '\n' :: rest := by
        simp [XmlTag.render, XmlTag.opening, XmlTag.closing, XmlTag.dataSize, XmlTag.text]
      rw [spelled, quiet_around (c := '\n') (by decide)]
      exact ⟨quiet_simpleTag valid attributesWell before, behind⟩
    | false =>
      have noDashes := dashes (.inl rfl)
      have spelled : first ++ ((⟨name, attributes, none⟩ : XmlTag).render level false childrenText ++ rest) =
          (first ++ '<' :: (name ++ (renderAttributes attributes ++ ['>']))) ++ '\n' ::
            (((childrenText ++ indent level) ++ '<' :: '/' :: (name ++ ['>'])) ++ '\n' :: rest) := by
        simp [XmlTag.render, XmlTag.opening, XmlTag.closing, textLine, endTag]
      rw [spelled, quiet_around (c := '\n') (by decide), quiet_around (c := '\n') (by decide)]
      exact ⟨quiet_startTag valid attributesWell before ⟨by simp, by simp⟩ noDashes,
        quiet_endTag valid (children.indent level) noDashes, behind⟩
  | some content =>
    obtain ⟨isLeaf, isText⟩ := text content rfl
    subst isLeaf
    have noDashes := dashes (.inr rfl)
    have spelled : first ++ ((⟨name, attributes, some content⟩ : XmlTag).render level true childrenText ++ rest) =
        ((first ++ '<' :: (name ++ (renderAttributes attributes ++ '>' :: content))) ++
          '<' :: '/' :: (name ++ ['>'])) ++ '\n' :: rest := by
      obtain ⟨c, others, rfl, -⟩ := isText.first
      simp [XmlTag.render, XmlTag.opening, XmlTag.closing, XmlTag.dataSize, XmlTag.text, endTag]
    rw [spelled, quiet_around (c := '\n') (by decide)]
    exact ⟨quiet_endTag valid (quiet_startTag valid attributesWell before isText.escaped.calm noDashes) noDashes,
      behind⟩

theorem XmlNodes.WellFormed.quiet {nodes : XmlNodes} (wellFormed : nodes.WellFormed) (level : Nat) :
    Quiet (nodes.render level) := by
  induction nodes generalizing level with
  | nil =>
    rw [render]
    decide
  | cons tag children next childrenIh nextIh =>
    obtain ⟨tagWell, -, childrenWell, nextWell⟩ := wellFormed
    have indented : Quiet ([] ++ indent level) := Quiet.indent (by decide) level
    exact tagWell.quiet level indented (childrenIh childrenWell (level + 1)) (nextIh nextWell level)

theorem quiet_lineStart (level : Nat) (bIgnoreXMLHeader : Bool) : Quiet (lineStart level bIgnoreXMLHeader) := by
  have indented : Quiet ([] ++ indent level) := Quiet.indent (by decide) level
  rw [lineStart]
  split_ifs
  · decide
  · exact indented

theorem findNode_root (level : Nat) (bIgnoreXMLHeader : Bool) {excess : Int} {c : Char} {more : Text}
    (starts : c ≠ '?' ∧ c ≠ '!')
    (quiet : Quiet (lineStart level bIgnoreXMLHeader ++ '<' :: c :: more))
    (small : FitsInt (lineStart level bIgnoreXMLHeader ++ '<' :: c :: more))
    (whole : (if ((lineStart level bIgnoreXMLHeader ++ '<' :: c :: more).length : Int) + excess ≤ 0 then 0
      else excess) = 0) :
    findNode excess 0 (lineStart level bIgnoreXMLHeader ++ '<' :: c :: more) = .ok ('<' :: c :: more) := by
  have inTag : FitsInt ('<' :: c :: more) := small.suffix (List.suffix_append _ _)
  have header : ¬ isStringStartWith 0 ('<' :: c :: more) "<?".toList = true := by
    rw [isStringStartWith_iff inTag]
    rintro ⟨-, same⟩
    exact starts.1 (List.cons_prefix_cons.mp (List.cons_prefix_cons.mp same).2).1.symm
  have comment : ¬ isStringStartWith 0 ('<' :: c :: more) "<!--".toList = true := by
    rw [isStringStartWith_iff inTag]
    rintro ⟨-, same⟩
    exact starts.2 (List.cons_prefix_cons.mp (List.cons_prefix_cons.mp same).2).1.symm
  have rootFound (fuel : Nat) : skipMarkup 0 "<?".toList "?>".toList .xmlInvalidVersion (fuel + 1) ('<' :: c :: more) =
      .ok ('<' :: c :: more) := by
    rw [skipMarkup, if_neg header]
  have noComment : skipComments 0 ('<' :: c :: more) = .ok ('<' :: c :: more) := by
    rw [skipComments, skipMarkup, if_neg comment]
  have quietStart := quiet.suffix (List.dropWhile_suffix special)
  rw [quiet_iff] at quietStart
  have rejected :
      ¬ ((strstr "<>".toList ((lineStart level bIgnoreXMLHeader ++ '<' :: c :: more).dropWhile special)).isSome ||
        (strstr "--->".toList
          ((lineStart level bIgnoreXMLHeader ++ '<' :: c :: more).dropWhile special)).isSome) = true := by
    rw [quietStart.1, quietStart.2]
    decide
  rw [findNode, whole, gotoFirstCharExcept_eq small (by simp), ok_bind]
  dsimp only
  rw [if_pos rfl, if_neg rejected]
  clear rejected quietStart whole
  by_cases root : (level = 0 && !bIgnoreXMLHeader) = true
  · have written : lineStart level bIgnoreXMLHeader = xmlHeader ++ ['\n'] := if_pos root
    have bracket := (isStringStartWith_iff small ['<']).mpr
      ⟨by simp, by rw [written]; exact List.prefix_iff_eq_take.mpr rfl⟩
    have isHeader := (isStringStartWith_iff small "<?".toList).mpr
      ⟨by decide, by rw [written]; exact List.prefix_iff_eq_take.mpr rfl⟩
    have found : strstr "?>".toList (lineStart level bIgnoreXMLHeader ++ '<' :: c :: more) =
        some ('?' :: '>' :: '\n' :: '<' :: c :: more) := by
      rw [written]
      rfl
    have skipped : (lineStart level bIgnoreXMLHeader ++ '<' :: c :: more).dropWhile special =
        lineStart level bIgnoreXMLHeader ++ '<' :: c :: more := by
      rw [written]
      rfl
    have line : FitsInt ('\n' :: '<' :: c :: more) := small.suffix (by rw [written]; exact ⟨xmlHeader, by simp⟩)
    have root : ('\n' :: '<' :: c :: more).dropWhile special = '<' :: c :: more := by
      rw [List.dropWhile_cons_of_pos (by decide), List.dropWhile_cons_of_neg (by decide)]
    have dropped : ('?' :: '>' :: '\n' :: '<' :: c :: more).drop "?>".toList.length = '\n' :: '<' :: c :: more := rfl
    obtain ⟨fuel, enough⟩ : ∃ fuel, (lineStart level bIgnoreXMLHeader ++ '<' :: c :: more).length = fuel + 1 :=
      Nat.exists_eq_succ_of_ne_zero (by simp)
    rw [skipped, if_pos bracket, skipHeaders, enough, skipMarkup, if_pos isHeader, found]
    dsimp only
    rw [dropped, gotoFirstCharExcept_eq line (by simp), root, ok_bind]
    dsimp only
    rw [rootFound, ok_bind, noComment]
  · have written : lineStart level bIgnoreXMLHeader = indent level := if_neg root
    have bracket : isStringStartWith 0 ('<' :: c :: more) ['<'] = true :=
      (isStringStartWith_iff inTag _).mpr ⟨by simp, by simp⟩
    rw [written, dropWhile_segment (blank_indent level) (by decide), if_pos bracket, skipHeaders, rootFound, ok_bind,
      noComment]

variable {node : XmlNode} (wellFormed : node.WellFormed)

include wellFormed

theorem XmlNode.WellFormed.render_starts (level : Nat) (bIgnoreXMLHeader : Bool) :
    ∃ c more, node.render level bIgnoreXMLHeader = lineStart level bIgnoreXMLHeader ++ '<' :: c :: more ∧
      '<' :: c :: more = node.tag.render level node.children.noHeadChild (node.children.render (level + 1)) ∧
      isNameChar c = true := by
  obtain ⟨c, name, isName, nameChar, -⟩ := exists_cons_of_isValidName wellFormed.1.valid
  refine ⟨c, name ++ (renderAttributes node.tag.attributes ++
    node.tag.closing level node.children.noHeadChild (node.children.render (level + 1))), ?_, ?_, nameChar⟩
  · simp [XmlNode.render, XmlTag.render, XmlTag.opening, isName]
  · simp [XmlTag.render, XmlTag.opening, isName]

theorem parseString_render (level : Nat) (bIgnoreXMLHeader : Bool)
    (small : FitsInt (node.render level bIgnoreXMLHeader)) {length : Nat}
    (given : length = (node.render level bIgnoreXMLHeader).length ∨ length = 0) :
    parseString heap (node.render level bIgnoreXMLHeader) length =
      .ok (node, some (behindNode node.tag node.children.noHeadChild [])) := by
  obtain ⟨c, more, spelled, content, nameChar⟩ := wellFormed.render_starts level bIgnoreXMLHeader
  have quiet : Quiet (node.render level bIgnoreXMLHeader) := by
    have whole := wellFormed.1.quiet level (quiet_lineStart level bIgnoreXMLHeader) (wellFormed.2.2.quiet (level + 1))
      (by decide : Quiet [])
    rwa [List.append_nil] at whole
  have whole : (if ((node.render level bIgnoreXMLHeader).length : Int) +
      ((length : Int) - (node.render level bIgnoreXMLHeader).length) ≤ 0 then 0
      else (length : Int) - (node.render level bIgnoreXMLHeader).length) = 0 := by
    split_ifs <;> omega
  have rest : (if length = 0 then 0 else (length : Int) - (node.render level bIgnoreXMLHeader).length) = 0 := by
    split_ifs <;> omega
  have starts : c ≠ '?' ∧ c ≠ '!' :=
    ⟨(ne_of_isNameChar nameChar (by decide)).symm, (ne_of_isNameChar nameChar (by decide)).symm⟩
  have found : findNode (length - (node.render level bIgnoreXMLHeader).length) 0 (node.render level bIgnoreXMLHeader) =
      .ok ('<' :: c :: more) := by
    rw [spelled] at quiet small whole ⊢
    exact findNode_root level bIgnoreXMLHeader starts quiet small whole
  have inContent : FitsInt ('<' :: c :: more) := small.suffix (by rw [spelled]; exact List.suffix_append _ _)
  have enough : ('<' :: c :: more).length ≤ (node.render level bIgnoreXMLHeader).length := by
    rw [spelled, List.length_append]
    omega
  rw [parseString, found, ok_bind, rest]
  rw [content, ← List.append_nil (node.tag.render _ _ _)] at inContent enough ⊢
  exact fillContentOfNode_render wellFormed.1 wellFormed.2.1 0 level inContent enough
    fun fits longer => fillChildren_render wellFormed.2.2 0 (level + 1) level fits longer

end Root

section Trees

structure XmlTag.Plain (tag : XmlTag) (isLeaf : Bool) : Prop where
  name : tag.name ≠ [] ∧ tag.name.all isNameChar = true
  attributes : ∀ attr ∈ tag.attributes,
    attr.name ≠ [] ∧ attr.name.all isNameChar = true ∧ Escaped attr.stringData
  text : ∀ text, tag.stringData = some text → isLeaf = true ∧ IsText text

def XmlNodes.Plain : XmlNodes → Prop
  | nil => True
  | cons tag children next => tag.Plain (children = nil) ∧ children.Plain ∧ next.Plain

def XmlNode.Plain (node : XmlNode) : Prop := node.tag.Plain (node.children = .nil) ∧ node.children.Plain

theorem digit_name_not_parsed :
    ¬ ∀ (heap : BehindBuffer) (node : XmlNode) (level : Nat) (bIgnoreXMLHeader : Bool) (ulSize : Nat), node.Plain →
      node.getEncodedSize level bIgnoreXMLHeader ≤ ulSize →
      ∃ buffer, node.encode level bIgnoreXMLHeader ulSize = .ok buffer ∧
        parseString heap buffer.written buffer.written.length = .ok (node, some []) := by
  intro claimed
  have plain : (⟨⟨['1'], [], none⟩, .nil⟩ : XmlNode).Plain :=
    ⟨⟨by decide, by simp, by simp⟩, trivial⟩
  obtain ⟨buffer, encoded, parsed⟩ := claimed .terminator ⟨⟨['1'], [], none⟩, .nil⟩ 0 true 6 plain (by decide)
  have written : (⟨⟨['1'], [], none⟩, .nil⟩ : XmlNode).encode 0 true 6 = .ok ⟨"<1 />\n".toList, 0⟩ := rfl
  rw [written] at encoded
  obtain rfl := Except.ok.inj encoded
  exact absurd parsed (by decide)

theorem parseString_encode (heap : BehindBuffer) (node : XmlNode) (wellFormed : node.WellFormed)
    (level : Nat) (bIgnoreXMLHeader : Bool)
    {ulSize : Nat} (room : node.getEncodedSize level bIgnoreXMLHeader ≤ ulSize)
    (small : node.getEncodedSize level bIgnoreXMLHeader < 2147483648) :
    ∃ buffer, node.encode level bIgnoreXMLHeader ulSize = .ok buffer ∧
      buffer.written.length = node.getEncodedSize level bIgnoreXMLHeader ∧
      ∀ length, length = buffer.written.length ∨ length = 0 → parseString heap buffer.written length =
        .ok (node, some (if node.children = .nil ∧ node.tag.stringData = none then ['\n'] else [])) := by
  refine ⟨_, node.encode_eq level bIgnoreXMLHeader room, node.length_render level bIgnoreXMLHeader, ?_⟩
  intro length given
  rw [← node.length_render] at small
  have parsed : parseString heap (node.render level bIgnoreXMLHeader) length = _ :=
    parseString_render wellFormed level bIgnoreXMLHeader ⟨small⟩ given
  have leaf : node.children.noHeadChild = true ↔ node.children = .nil := by
    refine ⟨wellFormed.2.1, fun none => ?_⟩
    rw [none]
    rfl
  rw [parsed, behindNode]
  simp [leaf]

def noteTag : XmlTag := ⟨"note".toList, [⟨"id".toList, "&lt;7".toList⟩], none⟩

def toTag : XmlTag := ⟨"to".toList, [], some "you & me".toList⟩

theorem parseString_encode_note :
    ∃ buffer, (⟨noteTag, .cons toTag .nil (.cons noteTag .nil .nil)⟩ : XmlNode).encode 0 false 200 = .ok buffer ∧
      buffer.written.length = (⟨noteTag, .cons toTag .nil (.cons noteTag .nil .nil)⟩ : XmlNode).getEncodedSize 0 false ∧
      ∀ length, length = buffer.written.length ∨ length = 0 → parseString .terminator buffer.written length =
        .ok (⟨noteTag, .cons toTag .nil (.cons noteTag .nil .nil)⟩, some []) := by
  have attributes : ∀ attr ∈ noteTag.attributes, attr.WellFormed := by
    intro attr member
    rw [List.mem_singleton.mp member]
    exact ⟨by decide, by decide, by simp [Escaped]⟩
  have note (isLeaf : Bool) : noteTag.WellFormed isLeaf :=
    ⟨by decide, by decide, attributes, by simp [noteTag], fun _ => by decide⟩
  have sendTo : toTag.WellFormed true := by
    refine ⟨by decide, by decide, by simp [toTag], ?_, fun _ => by decide⟩
    rintro text same
    obtain rfl := Option.some.inj same
    exact ⟨rfl, ⟨by simp [Escaped], ⟨_, _, rfl, by decide⟩, ⟨"you & m".toList, 'e', by decide, by decide⟩⟩⟩
  have wellFormed : (⟨noteTag, .cons toTag .nil (.cons noteTag .nil .nil)⟩ : XmlNode).WellFormed :=
    ⟨note _, XmlNodes.counted_of_few (by decide), sendTo, XmlNodes.counted_of_few (by decide), trivial, note _,
      XmlNodes.counted_of_few (by decide), trivial, trivial⟩
  exact parseString_encode .terminator _ wellFormed 0 false (by decide) (by decide)

end Trees

end CcspCommon.AnscXmlDomParser
