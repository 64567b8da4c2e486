import CcspCommon.AnscXmlDomParser.Parser
import CcspCommon.Shared.Recorded

set_option autoImplicit false

namespace CcspCommon.AnscXmlDomParser

open CcspCommon.Shared

inductive Place
  | behindMarkup (text : Text)
  | node (content : Text)
  | nodeName (name : Text)
  | attributeName (name : Text)
  | behindStartTag (text : Text)
  | behindEndName (text : Text)
  | behindEndTag (level : Nat) (text : Text)
  deriving DecidableEq, Repr

abbrev Parsing (α : Type) : Type := Tracked Place Stop α

section Parser

variable (heap : BehindBuffer) (excess : Int)

def followMarkup (opening closing : Text) (missing : AnscStatus) : Nat → Text → Parsing Text
  | 0, _ => throw .exhausted
  | fuel + 1, text =>
    if isStringStartWith excess text opening then
      match strstr closing text with
      | none => throw (.status missing)
      | some found => do
        visit (.behindMarkup (found.drop closing.length))
        match ← settled (gotoFirstCharExcept excess (found.drop closing.length)) with
        | none => throw .fault
        | some next => followMarkup opening closing missing fuel next
    else pure text

def followHeaders (text : Text) : Parsing Text :=
  followMarkup excess "<?".toList "?>".toList .xmlInvalidVersion (text.length + 1) text

def followComments (text : Text) : Parsing Text :=
  followMarkup excess "<!--".toList "-->".toList .xmlInvalidCommentEnd (text.length + 1) text

def followNode (ulLayerLevel : Nat) (content : Text) : Parsing Text := do
  let excess := if (content.length : Int) + excess ≤ 0 then 0 else excess
  match ← settled (gotoFirstCharExcept excess content) with
  | none => throw (.status .failure)
  | some start =>
    if ulLayerLevel = 0 then
      if (strstr "<>".toList start).isSome || (strstr "--->".toList start).isSome then
        throw (.status .xmlInvalidString)
      else if isStringStartWith excess start ['<'] then do
        let start ← followHeaders excess start
        followComments excess start
      else throw (.status .xmlInvalidVersion)
    else
      match ← settled (gotoFirstCharExcept excess start) with
      | none => throw .fault
      | some start => do
        let start ← followComments excess start
        match strstr ['<'] start with
        | none => throw (.status .xmlMissedEndTag)
        | some found => pure found

def followName (place : Text → Place) (maximum : Nat) (invalid : AnscStatus) (name : Text) : Parsing Text := do
  visit (place name)
  settled (copyName heap maximum invalid name)

def endOfName (content endOfNode firstSpace : Text) : Text :=
  if firstSpace.length < endOfNode.length then
    let before := content.drop (content.length - endOfNode.length - 1)
    if before.head? = some '/' then before else endOfNode
  else firstSpace

def followTagStart (content : Text) : Parsing TagStart := do
  visit (.node content)
  match content with
  | [] => throw .fault
  | _ :: rest =>
    match ← settled (gotoFirstCharExcept excess rest) with
    | none => throw (.status .xmlMissedEndTag)
    | some nodes =>
      match strstr ['>'] nodes, gotoFirstWantedChar excess special nodes with
      | some endOfNode, some firstSpace =>
        if nodes.length < (endOfName content endOfNode firstSpace).length then throw .fault
        else do
          let name ← followName heap .nodeName maximumNodeName .xmlInvalidNodeName
            (between nodes (endOfName content endOfNode firstSpace))
          pure ⟨name, endOfName content endOfNode firstSpace, endOfNode⟩
      | _, _ => throw (.status .xmlMissedEndTag)

def followAttributes (endOfNode : Text) : Nat → Option Text → Parsing (List XmlAttribute × Text)
  | _, none => throw (.status .xmlMissedEndTag)
  | 0, some _ => throw .exhausted
  | fuel + 1, some start =>
    if atTagEnd excess start then pure ([], start)
    else
      match gotoFirstWantedChar excess wanted start with
      | none => throw (.status .xmlEqualSignMissed)
      | some endOfAttribute =>
        if endOfAttribute.length ≤ endOfNode.length then throw (.status .xmlEqualSignMissed)
        else if endOfAttribute.length = start.length then throw (.status .xmlInvalidAttributeName)
        else do
          let name ← followName heap .attributeName maximumAttributeName .xmlInvalidAttributeName
            (between start endOfAttribute)
          let (value, behind) ← settled (readAttributeValue excess endOfNode endOfAttribute)
          let next ← settled (gotoFirstCharExcept excess behind)
          if next = some behind && !atTagEnd excess behind then throw (.status .xmlSpaceNeeded)
          else do
            let (attributes, last) ← followAttributes endOfNode fuel next
            pure (⟨name, value⟩ :: attributes, last)

def followText (behindTag : Text) : Parsing (Option Text × Text) := do
  visit (.behindStartTag behindTag)
  settled (readText excess behindTag)

def followEndTag (level : Nat) (name nodes : Text) : Parsing (Option Text) :=
  if !isStringStartWith excess (nodes.drop 2) name then throw (.status .xmlMissedEndTag)
  else do
    visit (.behindEndName ((nodes.drop 2).drop name.length))
    match ← settled (gotoFirstCharExcept excess ((nodes.drop 2).drop name.length)) with
    | none => throw .fault
    | some tagEnd =>
      if tagEnd.head? ≠ some '>' then throw (.status .xmlMissedEndTag)
      else do
        visit (.behindEndTag level (tagEnd.drop 1))
        settled (gotoFirstCharExcept excess (tagEnd.drop 1))

def followTagRest (endOfNodeName endOfNode : Text) : Parsing (List XmlAttribute × Text) :=
  if endOfNode.length < endOfNodeName.length then do
    let start ← settled (gotoFirstCharExcept excess endOfNodeName)
    followAttributes heap excess endOfNode endOfNodeName.length start
  else pure ([], endOfNode)

mutual

def followContent (level : Nat) : Nat → Text → Parsing (XmlNode × Option Text)
  | 0, _ => throw .exhausted
  | fuel + 1, content => do
    let ⟨name, endOfNodeName, endOfNode⟩ ← followTagStart heap excess content
    if endOfNodeName.length = endOfNode.length + 1 && endOfNodeName.head? = some '/' then
      pure (⟨⟨name, [], none⟩, .nil⟩, some (endOfNode.drop 1))
    else do
      let (attributes, tagEnd) ← followTagRest heap excess endOfNodeName endOfNode
      if ['/', '>'].isPrefixOf tagEnd then pure (⟨⟨name, attributes, none⟩, .nil⟩, some (tagEnd.drop 2))
      else do
        let (stringData, nodes) ← followText excess (endOfNode.drop 1)
        let (children, last) ← followChildren level fuel (some nodes)
        let behind ← followEndTag excess level name last
        pure (⟨⟨name, attributes, stringData⟩, children⟩, behind)

def followChildren (level : Nat) : Nat → Option Text → Parsing (XmlNodes × Text)
  | _, none => throw (.status .xmlMissedEndTag)
  | 0, some _ => throw .exhausted
  | fuel + 1, some nodes =>
    if isStringStartWith excess nodes ['<', '/'] then pure (.nil, nodes)
    else do
      let nodes ← followNode excess (level + 1) nodes
      if isStringStartWith excess nodes ['<', '/'] then pure (.nil, nodes)
      else do
        let (child, behind) ← followContent (level + 1) fuel nodes
        match behind with
        | none => throw .fault
        | some behind => do
          let next ← settled (gotoFirstCharExcept excess behind)
          let (rest, last) ← followChildren level fuel next
          pure (.cons child.tag child.children rest, last)

end

def followString (xmlString : Text) : Parsing (XmlNode × Option Text) := do
  let content ← followNode 0 0 xmlString
  followContent heap 0 0 xmlString.length content

end Parser

section Outcome

variable (heap : BehindBuffer) (excess : Int)

theorem ending_followMarkup (opening closing : Text) (missing : AnscStatus) (fuel : Nat) (text : Text) :
    ending (followMarkup excess opening closing missing fuel text) =
      skipMarkup excess opening closing missing fuel text := by
  induction fuel generalizing text with
  | zero => rfl
  | succ fuel ih =>
    rw [followMarkup, skipMarkup]
    split_ifs
    next =>
      cases strstr closing text with
      | none => rfl
      | some found =>
        rw [ending_visit_bind, ending_bind, ending_settled]
        apply bind_congr
        intro next
        cases next with
        | none => rfl
        | some next => exact ih next
    next => rfl

theorem ending_followHeaders (text : Text) : ending (followHeaders excess text) = skipHeaders excess text :=
  ending_followMarkup excess _ _ _ _ text

theorem ending_followComments (text : Text) : ending (followComments excess text) = skipComments excess text :=
  ending_followMarkup excess _ _ _ _ text

theorem ending_followNode (ulLayerLevel : Nat) (content : Text) :
    ending (followNode excess ulLayerLevel content) = findNode excess ulLayerLevel content := by
  rw [followNode, findNode]
  generalize (if (content.length : Int) + excess ≤ 0 then 0 else excess) = excess
  rw [ending_bind, ending_settled]
  apply bind_congr
  intro start
  cases start with
  | none => rfl
  | some start =>
    simp only
    split_ifs
    next => rfl
    next =>
      rw [ending_bind, ending_followHeaders]
      simp only [ending_followComments]
    next => rfl
    next =>
      rw [ending_bind, ending_settled]
      apply bind_congr
      intro start
      cases start with
      | none => rfl
      | some start =>
        rw [ending_bind, ending_followComments]
        apply bind_congr
        intro start
        cases strstr ['<'] start <;> rfl

theorem ending_followName (place : Text → Place) (maximum : Nat) (invalid : AnscStatus) (name : Text) :
    ending (followName heap place maximum invalid name) = copyName heap maximum invalid name := rfl

theorem ending_followTagStart (content : Text) :
    ending (followTagStart heap excess content) = readTagStart heap excess content := by
  unfold followTagStart readTagStart
  rw [ending_visit_bind]
  cases content with
  | nil => rfl
  | cons first rest =>
    rw [ending_bind, ending_settled]
    apply bind_congr
    intro nodes
    cases nodes with
    | none => rfl
    | some nodes =>
      dsimp only
      cases strstr ['>'] nodes with
      | none => rfl
      | some endOfNode =>
        cases gotoFirstWantedChar excess special nodes with
        | none => rfl
        | some firstSpace =>
          by_cases outside : nodes.length < (endOfName (first :: rest) endOfNode firstSpace).length
          next =>
            simp only [if_pos outside, ending_throw]
            exact (if_pos outside).symm
          next =>
            simp only [if_neg outside, ending_bind, ending_followName]
            exact (if_neg outside).symm

theorem ending_followAttributes (endOfNode : Text) (fuel : Nat) (start : Option Text) :
    ending (followAttributes heap excess endOfNode fuel start) = readAttributes heap excess endOfNode fuel start := by
  induction fuel generalizing start with
  | zero => cases start <;> rfl
  | succ fuel ih =>
    cases start with
    | none => rfl
    | some start =>
      rw [followAttributes, readAttributes]
      split_ifs
      next => rfl
      next =>
        cases gotoFirstWantedChar excess wanted start with
        | none => rfl
        | some endOfAttribute =>
          simp only
          split_ifs
          next => rfl
          next => rfl
          next =>
            rw [ending_bind, ending_followName]
            apply bind_congr
            intro name
            rw [ending_bind, ending_settled]
            apply bind_congr
            intro value
            rw [ending_bind, ending_settled]
            apply bind_congr
            intro next
            split_ifs
            next => rfl
            next =>
              rw [ending_bind, ih]
              rfl

theorem ending_followText (behindTag : Text) : ending (followText excess behindTag) = readText excess behindTag := rfl

theorem ending_followEndTag (level : Nat) (name nodes : Text) :
    ending (followEndTag excess level name nodes) = readEndTag excess name nodes := by
  rw [followEndTag, readEndTag]
  split_ifs
  next => rfl
  next =>
    rw [ending_visit_bind, ending_bind, ending_settled]
    apply bind_congr
    intro tagEnd
    cases tagEnd with
    | none => rfl
    | some tagEnd =>
      simp only
      split_ifs
      next => rfl
      next => rw [ending_visit_bind, ending_settled]

theorem ending_followTagRest (endOfNodeName endOfNode : Text) :
    ending (followTagRest heap excess endOfNodeName endOfNode) =
      if endOfNode.length < endOfNodeName.length then do
        let start ← gotoFirstCharExcept excess endOfNodeName
        readAttributes heap excess endOfNode endOfNodeName.length start
      else .ok ([], endOfNode) := by
  rw [followTagRest]
  split_ifs
  next =>
    rw [ending_bind, ending_settled]
    simp only [ending_followAttributes]
  next => rfl

theorem ending_behindTag {level fuel : Nat} {name endOfNode : Text}
    (same : ∀ nodes, ending (followChildren heap excess level fuel nodes) = fillChildren heap excess level fuel nodes)
    (attributes : List XmlAttribute × Text) :
    ending (if ['/', '>'].isPrefixOf attributes.2 then
        pure ((⟨⟨name, attributes.1, none⟩, .nil⟩, some (attributes.2.drop 2)) : XmlNode × Option Text)
      else do
        let text ← followText excess (endOfNode.drop 1)
        let children ← followChildren heap excess level fuel (some text.2)
        let behind ← followEndTag excess level name children.2
        pure (⟨⟨name, attributes.1, text.1⟩, children.1⟩, behind)) =
      (if ['/', '>'].isPrefixOf attributes.2 then .ok (⟨⟨name, attributes.1, none⟩, .nil⟩, some (attributes.2.drop 2))
      else do
        let text ← readText excess (endOfNode.drop 1)
        let children ← fillChildren heap excess level fuel (some text.2)
        let behind ← readEndTag excess name children.2
        .ok (⟨⟨name, attributes.1, text.1⟩, children.1⟩, behind)) := by
  split_ifs
  next => rfl
  next =>
    simp only [ending_bind, ending_followText, same, ending_followEndTag]
    rfl

theorem ending_followContent_succ {level fuel : Nat}
    (same : ∀ nodes,
      ending (followChildren heap excess level fuel nodes) = fillChildren heap excess level fuel nodes)
    (content : Text) :
    ending (followContent heap excess level (fuel + 1) content) =
      fillContentOfNode heap excess level (fuel + 1) content := by
  rw [followContent, fillContentOfNode, ending_bind, ending_followTagStart]
  apply bind_congr
  intro tag
  by_cases closed : (tag.endOfNodeName.length = tag.endOfNode.length + 1 && tag.endOfNodeName.head? = some '/') = true
  next =>
    simp only [if_pos closed]
    rfl
  next =>
    simp only [if_neg closed]
    rw [ending_bind, ending_followTagRest]
    -- the attributes are read or there are none, and the rest follows
    split_ifs
    next =>
      rw [bind_assoc]
      apply bind_congr
      intro start
      apply bind_congr
      intro attributes
      exact ending_behindTag heap excess same attributes
    next =>
      apply bind_congr
      intro attributes
      exact ending_behindTag heap excess same attributes

theorem ending_followChildren_succ {level fuel : Nat}
    (child : ∀ content, ending (followContent heap excess (level + 1) fuel content) =
      fillContentOfNode heap excess (level + 1) fuel content)
    (others : ∀ nodes,
      ending (followChildren heap excess level fuel nodes) = fillChildren heap excess level fuel nodes)
    (nodes : Text) :
    ending (followChildren heap excess level (fuel + 1) (some nodes)) =
      fillChildren heap excess level (fuel + 1) (some nodes) := by
  rw [followChildren, fillChildren]
  split_ifs
  next => rfl
  next =>
    rw [ending_bind, ending_followNode]
    apply bind_congr
    intro nodes
    split_ifs
    next => rfl
    next =>
      rw [ending_bind, child]
      apply bind_congr
      intro filled
      obtain ⟨node, behind⟩ := filled
      cases behind with
      | none => rfl
      | some behind =>
        dsimp only
        rw [ending_bind, ending_settled]
        apply bind_congr
        intro next
        rw [ending_bind, others]
        rfl

theorem ending_follow (fuel : Nat) :
    (∀ level content, ending (followContent heap excess level fuel content) =
        fillContentOfNode heap excess level fuel content) ∧
      ∀ level nodes, ending (followChildren heap excess level fuel nodes) =
        fillChildren heap excess level fuel nodes := by
  induction fuel with
  | zero =>
    constructor
    next =>
      intro level content
      rfl
    next =>
      intro level nodes
      cases nodes <;> rfl
  | succ fuel ih =>
    constructor
    next =>
      intro level content
      exact ending_followContent_succ heap excess (ih.2 level) content
    next =>
      intro level nodes
      cases nodes with
      | none => rfl
      | some nodes => exact ending_followChildren_succ heap excess (ih.1 (level + 1)) (ih.2 level) nodes

theorem ending_followString (xmlString : Text) :
    ending (followString heap xmlString) = parseString heap xmlString xmlString.length := by
  have same : ((xmlString.length : Int) - xmlString.length) = 0 := Int.sub_self _
  rw [followString, parseString, ending_bind, ending_followNode, same, ite_self]
  simp only [ending_follow]

end Outcome

end CcspCommon.AnscXmlDomParser
