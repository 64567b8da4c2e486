import CcspCommon.AnscPlatform.DList
import CcspCommon.Shared.Text
import Mathlib

set_option autoImplicit false

namespace CcspCommon.AnscXmlDomParser

open CcspCommon.Shared
open CcspCommon.AnscPlatform (ushort)

structure XmlAttribute where
  name : Text
  stringData : Text
  deriving DecidableEq, Repr

structure XmlTag where
  name : Text
  attributes : List XmlAttribute
  stringData : Option Text
  deriving DecidableEq, Repr

inductive XmlNodes
  | nil
  | cons (tag : XmlTag) (children next : XmlNodes)
  deriving DecidableEq, Repr

/-- A node with its children. `Level` is its depth below the root, which adding a child keeps. -/
structure XmlNode where
  tag : XmlTag
  children : XmlNodes
  deriving DecidableEq, Repr

def XmlNodes.length : XmlNodes → Nat
  | nil => 0
  | cons _ _ next => next.length + 1

-- `AnscXmlDomNodeGetHeadChild` returns NULL; the depth of the queue is a `USHORT`.
def XmlNodes.noHeadChild (children : XmlNodes) : Bool := ushort children.length = 0

@[simp] theorem XmlNodes.noHeadChild_nil : nil.noHeadChild = true := rfl

def XmlTag.text (tag : XmlTag) : Text := tag.stringData.getD []

def XmlTag.dataSize (tag : XmlTag) : Nat := tag.text.length

def xmlHeader : Text := "<?xml version=\"1.0\"  encoding=\"UTF-8\" ?>".toList

def spacesPerLevel : Nat := 2

section Size

def XmlAttribute.bufSize (attr : XmlAttribute) : Nat :=
  attr.name.length + 1 + 1 + attr.stringData.length + 1

def XmlTag.encodedSize (tag : XmlTag) (level : Nat) (bIgnoreXMLHeader isLeaf : Bool) (childrenSize : Nat) : Nat :=
  let header := if level = 0 && !bIgnoreXMLHeader then xmlHeader.length + 1 else level * spacesPerLevel
  let start := header + 1 + tag.name.length + (tag.attributes.map fun attr => 1 + attr.bufSize).sum
  if isLeaf then
    if tag.dataSize = 0 then start + 1 + 2 + 1
    else start + 1 + tag.dataSize + 2 + tag.name.length + 1 + 1
  else
    let text := if tag.stringData.isSome then (level + 1) * spacesPerLevel + tag.dataSize + 1 else 0
    start + 1 + 1 + text + childrenSize + level * spacesPerLevel + 2 + tag.name.length + 1 + 1

def XmlNodes.encodedSize (level : Nat) : XmlNodes → Nat
  | nil => 0
  | cons tag children next =>
    tag.encodedSize level false children.noHeadChild (children.encodedSize (level + 1)) + next.encodedSize level

def XmlNode.getEncodedSize (node : XmlNode) (level : Nat) (bIgnoreXMLHeader : Bool) : Nat :=
  node.tag.encodedSize level bIgnoreXMLHeader node.children.noHeadChild (node.children.encodedSize (level + 1))

end Size

inductive AnscStatus
  | failure | resources | xmlResources | xmlInvalidString | xmlInvalidVersion | xmlInvalidCommentEnd
  | xmlMissedEndTag | xmlInvalidLength | xmlInvalidNodeName | xmlInvalidAttributeName
  | xmlEqualSignMissed | xmlStringSignMissed | xmlSpaceNeeded
  deriving DecidableEq, Repr

structure EncodeBuffer where
  written : Text
  size : Nat
  deriving DecidableEq, Repr

namespace EncodeBuffer

def node2Buf (content : Text) (buffer : EncodeBuffer) : Nat × EncodeBuffer :=
  let ulCopySize := min content.length buffer.size
  (ulCopySize, ⟨buffer.written ++ content.take ulCopySize, buffer.size - ulCopySize⟩)

def copyAll (content : Text) (buffer : EncodeBuffer) : Except AnscStatus EncodeBuffer :=
  let (ulCopied, next) := buffer.node2Buf content
  if ulCopied < content.length then .error .resources else .ok next

def encodeSpaces : Nat → EncodeBuffer → Nat × EncodeBuffer
  | 0, buffer => (0, buffer)
  | ulTimes + 1, buffer =>
    let (ulCopied, next) := buffer.node2Buf [' ']
    if ulCopied = 0 then (0, buffer)
    else
      let (ulMore, last) := encodeSpaces ulTimes next
      (ulCopied + ulMore, last)

def encodeLinefeed (buffer : EncodeBuffer) : EncodeBuffer := (buffer.node2Buf ['\n']).2

-- Copies until one is cut short, behind which `pBuf` does not move.
def copyPieces : List Text → EncodeBuffer → EncodeBuffer
  | [], buffer => buffer
  | piece :: rest, buffer =>
    let (ulCopied, next) := buffer.node2Buf piece
    if ulCopied < piece.length then { buffer with size := next.size } else copyPieces rest next

def encodeAttr2Buf (attr : XmlAttribute) (buffer : EncodeBuffer) : EncodeBuffer :=
  buffer.copyPieces [attr.name, ['='], ['"'], attr.stringData, ['"']]

def encodeAttributes : List XmlAttribute → EncodeBuffer → Except AnscStatus EncodeBuffer
  | [], buffer => .ok buffer
  | attr :: rest, buffer => do
    let buffer ← buffer.copyAll [' ']
    encodeAttributes rest (buffer.encodeAttr2Buf attr)

def encodeLineStart (level : Nat) (bIgnoreXMLHeader : Bool) (buffer : EncodeBuffer) :
    Except AnscStatus EncodeBuffer :=
  if level = 0 && !bIgnoreXMLHeader then do
    let buffer ← buffer.copyAll xmlHeader
    .ok buffer.encodeLinefeed
  else .ok (buffer.encodeSpaces (level * spacesPerLevel)).2

def encodeStart (tag : XmlTag) (level : Nat) (bIgnoreXMLHeader : Bool) (buffer : EncodeBuffer) :
    Except AnscStatus EncodeBuffer := do
  let buffer ← buffer.encodeLineStart level bIgnoreXMLHeader
  let buffer ← buffer.copyAll ['<']
  let buffer ← buffer.copyAll tag.name
  buffer.encodeAttributes tag.attributes

def encodeEndTag (name : Text) (buffer : EncodeBuffer) : Except AnscStatus EncodeBuffer := do
  let buffer ← buffer.copyAll ['<', '/']
  let buffer ← buffer.copyAll name
  let buffer ← buffer.copyAll ['>']
  buffer.copyAll ['\n']

def encodeTextLine (stringData : Option Text) (level : Nat) (buffer : EncodeBuffer) :
    Except AnscStatus EncodeBuffer :=
  match stringData with
  | none => .ok buffer
  | some text =>
    let (ulCopied, next) := buffer.encodeSpaces ((level + 1) * spacesPerLevel)
    if ulCopied = 0 then .error .resources
    else do
      let next ← next.copyAll text
      next.copyAll ['\n']

def encodeTag (tag : XmlTag) (level : Nat) (bIgnoreXMLHeader isLeaf : Bool)
    (encodeChildren : EncodeBuffer → Except AnscStatus EncodeBuffer) (buffer : EncodeBuffer) :
    Except AnscStatus EncodeBuffer := do
  let buffer ← buffer.encodeStart tag level bIgnoreXMLHeader
  if isLeaf then
    if tag.dataSize = 0 then
      let buffer ← buffer.copyAll [' ']
      let buffer ← buffer.copyAll ['/', '>']
      .ok buffer.encodeLinefeed
    else
      let buffer ← buffer.copyAll ['>']
      let buffer ← buffer.copyAll tag.text
      buffer.encodeEndTag tag.name
  else
    let buffer ← buffer.copyAll ['>']
    let buffer ← buffer.copyAll ['\n']
    let buffer ← buffer.encodeTextLine tag.stringData level
    let buffer ← encodeChildren buffer
    let (ulCopied, buffer) := buffer.encodeSpaces (level * spacesPerLevel)
    if ulCopied ≠ level * spacesPerLevel then .error .resources else buffer.encodeEndTag tag.name

def place (buffer : EncodeBuffer) (ulSize : Nat) (child : EncodeBuffer) : EncodeBuffer :=
  ⟨buffer.written ++ child.written.take ulSize ++ List.replicate (ulSize - child.written.length) '\x00', child.size⟩

end EncodeBuffer

-- The loop of `AnscXmlDomNodeEncode` over the children, which ends early when no space is left.
def XmlNodes.encode (level : Nat) : XmlNodes → EncodeBuffer → Except AnscStatus EncodeBuffer
  | nil, buffer => .ok buffer
  | cons tag children next, buffer =>
    if buffer.size = 0 then .ok buffer
    else
      let ulSize := tag.encodedSize level false children.noHeadChild (children.encodedSize (level + 1))
      if buffer.size < ulSize then .error .resources
      else do
        let child ← EncodeBuffer.encodeTag tag level false children.noHeadChild (children.encode (level + 1))
          ⟨[], buffer.size⟩
        next.encode level (buffer.place ulSize child)

def XmlNode.encode (node : XmlNode) (level : Nat) (bIgnoreXMLHeader : Bool) (ulSize : Nat) :
    Except AnscStatus EncodeBuffer :=
  EncodeBuffer.encodeTag node.tag level bIgnoreXMLHeader node.children.noHeadChild (node.children.encode (level + 1))
    ⟨[], ulSize⟩

end CcspCommon.AnscXmlDomParser
