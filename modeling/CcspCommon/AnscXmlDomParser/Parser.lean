import CcspCommon.AnscXmlDomParser.DomNode
import Mathlib.Data.List.DropRight

set_option autoImplicit false

namespace CcspCommon.AnscXmlDomParser

open CcspCommon.Shared

/-- How the parser ends without a tree: with a status, with a read outside of the string or through NULL, or
because the bound on its recursion is used up. -/
inductive Stop
  | status (returnStatus : AnscStatus)
  | fault
  | exhausted
  deriving DecidableEq, Repr

section Scanning

def int32 : Int → Int
  | .ofNat n => if n < 2147483648 then n else (n : Int).bmod 4294967296
  | .negSucc n => (Int.negSucc n).bmod 4294967296

def lengthAt (excess : Int) (text : Text) : Int := int32 (text.length + excess)

def special (c : Char) : Bool := c = ' ' || c = '\t' || c = '\r' || c = '\n'

def wanted (c : Char) : Bool := c = ' ' || c = '='

-- The loop of `AnscXmlGotoFirstCharExcept`; `strchr` also finds the NUL in its string.
def skipSpecial : Nat → Text → Except Stop Text
  | 0, text => .ok text
  | _ + 1, [] => .error .fault
  | n + 1, c :: rest => if special c then skipSpecial n rest else .ok (c :: rest)

def gotoFirstCharExcept (excess : Int) (text : Text) : Except Stop (Option Text) :=
  if lengthAt excess text = 0 then .ok none else (skipSpecial (lengthAt excess text).toNat text).map some

def skipUnwanted (stops : Char → Bool) : Nat → Text → Text
  | 0, text => text
  | _ + 1, [] => []
  | n + 1, c :: rest => if stops c then c :: rest else skipUnwanted stops n rest

def gotoFirstWantedChar (excess : Int) (stops : Char → Bool) (text : Text) : Option Text :=
  if lengthAt excess text = 0 then none else some (skipUnwanted stops (lengthAt excess text).toNat text)

def isStringStartWith (excess : Int) (text start : Text) : Bool :=
  lengthAt excess text ≠ 0 && (start.length : Int) ≤ lengthAt excess text && start ≠ [] && start.isPrefixOf text

def getStringEndExcept (text : Text) (endPosition : Nat) : Nat :=
  ((text.take (int32 endPosition).toNat).rdropWhile special).length

def between (start stop : Text) : Text := start.take (start.length - stop.length)

end Scanning

section Names

def isLetter (c : Char) : Bool := ('A' ≤ c && c ≤ 'Z') || ('a' ≤ c && c ≤ 'z')

def isDigit (c : Char) : Bool := '0' ≤ c && c ≤ '9'

def isNameChar (c : Char) : Bool := isLetter c || isDigit c || c = '.' || c = '-' || c = '_' || c = ':'

def isValidName : Text → Bool
  | [] => false
  | c :: rest => (isLetter c || c = '_') && rest.all isNameChar

def maximumNodeName : Nat := 48

def maximumAttributeName : Nat := 64

/-- What stands behind the zeroed buffer of a name, where the check of a name that fills it goes on. -/
inductive BehindBuffer
  | unreadable
  | terminator
  deriving DecidableEq, Repr

/-- The name copied into its buffer, checked and kept by `AnscCopyString`, whose terminator goes behind
the name of the node or the attribute when it has the full length. -/
def copyName (heap : BehindBuffer) (maximum : Nat) (invalid : AnscStatus) (name : Text) : Except Stop Text :=
  if name.length > maximum then .error (.status .xmlInvalidLength)
  else if name.length = maximum ∧ heap = .unreadable then .error .fault
  else if isValidName name then .ok name
  else .error (.status invalid)

end Names

section FindNode

def skipMarkup (excess : Int) (opening closing : Text) (missing : AnscStatus) : Nat → Text → Except Stop Text
  | 0, _ => .error .exhausted
  | fuel + 1, text =>
    if isStringStartWith excess text opening then
      match strstr closing text with
      | none => .error (.status missing)
      | some found => do
        match ← gotoFirstCharExcept excess (found.drop closing.length) with
        | none => .error .fault
        | some next => skipMarkup excess opening closing missing fuel next
    else .ok text

def skipHeaders (excess : Int) (text : Text) : Except Stop Text :=
  skipMarkup excess "<?".toList "?>".toList .xmlInvalidVersion (text.length + 1) text

def skipComments (excess : Int) (text : Text) : Except Stop Text :=
  skipMarkup excess "<!--".toList "-->".toList .xmlInvalidCommentEnd (text.length + 1) text

def findNode (excess : Int) (ulLayerLevel : Nat) (content : Text) : Except Stop Text := do
  let excess := if (content.length : Int) + excess ≤ 0 then 0 else excess
  match ← gotoFirstCharExcept excess content with
  | none => .error (.status .failure)
  | some start =>
    if ulLayerLevel = 0 then
      if (strstr "<>".toList start).isSome || (strstr "--->".toList start).isSome then
        .error (.status .xmlInvalidString)
      else if isStringStartWith excess start ['<'] then do
        let start ← skipHeaders excess start
        skipComments excess start
      else .error (.status .xmlInvalidVersion)
    else
      match ← gotoFirstCharExcept excess start with
      | none => .error .fault
      | some start => do
        let start ← skipComments excess start
        match strstr ['<'] start with
        | none => .error (.status .xmlMissedEndTag)
        | some found => .ok found

end FindNode

section FillContent

structure TagStart where
  name : Text
  endOfNodeName : Text
  endOfNode : Text

def readTagStart (heap : BehindBuffer) (excess : Int) (content : Text) : Except Stop TagStart :=
  match content with
  | [] => .error .fault
  | _ :: rest => do
    match ← gotoFirstCharExcept excess rest with
    | none => .error (.status .xmlMissedEndTag)
    | some nodes =>
      match strstr ['>'] nodes, gotoFirstWantedChar excess special nodes with
      | some endOfNode, some firstSpace =>
        -- a space behind the tag does not end its name
        let endOfNodeName :=
          if firstSpace.length < endOfNode.length then
            let before := content.drop (content.length - endOfNode.length - 1)
            if before.head? = some '/' then before else endOfNode
          else firstSpace
        if nodes.length < endOfNodeName.length then .error .fault
        else do
          let name ← copyName heap maximumNodeName .xmlInvalidNodeName (between nodes endOfNodeName)
          .ok ⟨name, endOfNodeName, endOfNode⟩
      | _, _ => .error (.status .xmlMissedEndTag)

def readAttributeValue (excess : Int) (endOfNode endOfAttribute : Text) : Except Stop (Text × Text) := do
  match ← gotoFirstCharExcept excess endOfAttribute with
  | none => .error (.status .xmlEqualSignMissed)
  | some equalSign =>
    if !isStringStartWith excess equalSign ['='] then .error (.status .xmlEqualSignMissed)
    else do
      match ← gotoFirstCharExcept excess (equalSign.drop 1) with
      | none => .error (.status .xmlStringSignMissed)
      | some quote =>
        if !isStringStartWith excess quote ['"'] then .error (.status .xmlStringSignMissed)
        else
          let startOfAttrValue := quote.drop 1
          match strstr ['"'] startOfAttrValue with
          | none => .error (.status .xmlStringSignMissed)
          | some endOfAttrValue =>
            if endOfAttrValue.length ≤ endOfNode.length then .error (.status .xmlStringSignMissed)
            else .ok (between startOfAttrValue endOfAttrValue, endOfAttrValue.drop 1)

def atTagEnd (excess : Int) (text : Text) : Bool :=
  isStringStartWith excess text ['/', '>'] || isStringStartWith excess text ['>']

def readAttributes (heap : BehindBuffer) (excess : Int) (endOfNode : Text) :
    Nat → Option Text → Except Stop (List XmlAttribute × Text)
  | _, none => .error (.status .xmlMissedEndTag)
  | 0, some _ => .error .exhausted
  | fuel + 1, some start =>
    if atTagEnd excess start then .ok ([], start)
    else
      match gotoFirstWantedChar excess wanted start with
      | none => .error (.status .xmlEqualSignMissed)
      | some endOfAttribute =>
        if endOfAttribute.length ≤ endOfNode.length then .error (.status .xmlEqualSignMissed)
        else if endOfAttribute.length = start.length then .error (.status .xmlInvalidAttributeName)
        else do
          let name ← copyName heap maximumAttributeName .xmlInvalidAttributeName (between start endOfAttribute)
          let (value, behind) ← readAttributeValue excess endOfNode endOfAttribute
          let next ← gotoFirstCharExcept excess behind
          if next = some behind && !atTagEnd excess behind then .error (.status .xmlSpaceNeeded)
          else do
            let (attributes, last) ← readAttributes heap excess endOfNode fuel next
            .ok (⟨name, value⟩ :: attributes, last)

def readText (excess : Int) (behindTag : Text) : Except Stop (Option Text × Text) := do
  match ← gotoFirstCharExcept excess behindTag with
  | none => .error (.status .xmlResources)
  | some startOfText =>
    match strstr ['<'] startOfText with
    | none => .error .fault
    | some nextTag =>
      let size := getStringEndExcept startOfText (startOfText.length - nextTag.length)
      let stringData := if size = 0 then none else some (startOfText.take size)
      match strstr ['<'] (startOfText.drop size) with
      | none => .error .fault
      | some nodes => .ok (stringData, nodes)

def readEndTag (excess : Int) (name nodes : Text) : Except Stop (Option Text) :=
  let nodes := nodes.drop 2
  if !isStringStartWith excess nodes name then .error (.status .xmlMissedEndTag)
  else do
    match ← gotoFirstCharExcept excess (nodes.drop name.length) with
    | none => .error .fault
    | some tagEnd =>
      if tagEnd.head? ≠ some '>' then .error (.status .xmlMissedEndTag)
      else gotoFirstCharExcept excess (tagEnd.drop 1)

mutual

def fillContentOfNode (heap : BehindBuffer) (excess : Int) (level : Nat) :
    Nat → Text → Except Stop (XmlNode × Option Text)
  | 0, _ => .error .exhausted
  | fuel + 1, content => do
    let ⟨name, endOfNodeName, endOfNode⟩ ← readTagStart heap excess content
    if endOfNodeName.length = endOfNode.length + 1 && endOfNodeName.head? = some '/' then
      .ok (⟨⟨name, [], none⟩, .nil⟩, some (endOfNode.drop 1))
    else do
      let (attributes, tagEnd) ←
        if endOfNode.length < endOfNodeName.length then do
          let start ← gotoFirstCharExcept excess endOfNodeName
          readAttributes heap excess endOfNode endOfNodeName.length start
        else .ok ([], endOfNode)
      if ['/', '>'].isPrefixOf tagEnd then .ok (⟨⟨name, attributes, none⟩, .nil⟩, some (tagEnd.drop 2))
      else do
        let (stringData, nodes) ← readText excess (endOfNode.drop 1)
        let (children, last) ← fillChildren heap excess level fuel (some nodes)
        let behind ← readEndTag excess name last
        .ok (⟨⟨name, attributes, stringData⟩, children⟩, behind)

def fillChildren (heap : BehindBuffer) (excess : Int) (level : Nat) : Nat → Option Text → Except Stop (XmlNodes × Text)
  | _, none => .error (.status .xmlMissedEndTag)
  | 0, some _ => .error .exhausted
  | fuel + 1, some nodes =>
    if isStringStartWith excess nodes ['<', '/'] then .ok (.nil, nodes)
    else do
      let nodes ← findNode excess (level + 1) nodes
      if isStringStartWith excess nodes ['<', '/'] then .ok (.nil, nodes)
      else do
        let (child, behind) ← fillContentOfNode heap excess (level + 1) fuel nodes
        match behind with
        | none => .error .fault
        | some behind => do
          let next ← gotoFirstCharExcept excess behind
          let (rest, last) ← fillChildren heap excess level fuel next
          .ok (.cons child.tag child.children rest, last)

end

def parseString (heap : BehindBuffer) (xmlString : Text) (length : Nat) : Except Stop (XmlNode × Option Text) := do
  let content ← findNode (length - xmlString.length) 0 xmlString
  fillContentOfNode heap (if length = 0 then 0 else length - xmlString.length) 0 xmlString.length content

end FillContent

end CcspCommon.AnscXmlDomParser
