import CcspCommon.AnscXmlDomParser.DomNode

set_option autoImplicit false

namespace CcspCommon.AnscXmlDomParser

open CcspCommon.Shared

namespace EncodeBuffer

def append (buffer : EncodeBuffer) (text : Text) : EncodeBuffer :=
  ⟨buffer.written ++ text, buffer.size - text.length⟩

theorem append_append (buffer : EncodeBuffer) (first second : Text) :
    (buffer.append first).append second = buffer.append (first ++ second) := by
  simp [append, Nat.sub_sub]

def Writes (action : EncodeBuffer → Except AnscStatus EncodeBuffer) (text : Text) : Prop :=
  ∀ buffer : EncodeBuffer, text.length ≤ buffer.size → action buffer = .ok (buffer.append text)

theorem writes_nil : Writes .ok [] := by
  intro buffer _
  simp [append]

theorem Writes.bind {first second : EncodeBuffer → Except AnscStatus EncodeBuffer} {text rest : Text}
    (writes : Writes first text) (later : Writes second rest) :
    Writes (fun buffer => first buffer >>= second) (text ++ rest) := by
  intro buffer room
  rw [List.length_append] at room
  have space : rest.length ≤ (buffer.append text).size := by
    simp only [append]
    omega
  have done := writes buffer (by omega)
  simp only [done]
  exact (later _ space).trans (by rw [append_append])

theorem node2Buf_eq {content : Text} {buffer : EncodeBuffer} (room : content.length ≤ buffer.size) :
    buffer.node2Buf content = (content.length, buffer.append content) := by
  simp [node2Buf, append, Nat.min_eq_left room]

theorem writes_copyAll (content : Text) : Writes (copyAll content) content := by
  intro buffer room
  simp [copyAll, node2Buf_eq room]

theorem writes_encodeLinefeed : Writes (fun buffer => .ok buffer.encodeLinefeed) ['\n'] := by
  intro buffer room
  simp [encodeLinefeed, node2Buf_eq room]

theorem encodeSpaces_eq (ulTimes : Nat) {buffer : EncodeBuffer} (room : ulTimes ≤ buffer.size) :
    buffer.encodeSpaces ulTimes = (ulTimes, buffer.append (List.replicate ulTimes ' ')) := by
  induction ulTimes generalizing buffer with
  | zero => simp [encodeSpaces, append]
  | succ ulTimes ih =>
    have one : [' '].length ≤ buffer.size := by
      simp only [List.length_singleton]
      omega
    have space : ulTimes ≤ (buffer.append [' ']).size := by
      simp only [append, List.length_singleton]
      omega
    rw [encodeSpaces, node2Buf_eq one]
    simp only [List.length_singleton, Nat.one_ne_zero, if_false]
    rw [ih space, append_append, Nat.add_comm]
    rfl

theorem writes_encodeSpaces (ulTimes : Nat) :
    Writes (fun buffer => .ok (buffer.encodeSpaces ulTimes).2) (List.replicate ulTimes ' ') := by
  intro buffer room
  rw [List.length_replicate] at room
  simp only [encodeSpaces_eq ulTimes room]

theorem copyPieces_eq (pieces : List Text) {buffer : EncodeBuffer}
    (room : pieces.flatten.length ≤ buffer.size) :
    buffer.copyPieces pieces = buffer.append pieces.flatten := by
  induction pieces generalizing buffer with
  | nil => simp [copyPieces, append]
  | cons piece rest ih =>
    rw [List.flatten_cons, List.length_append] at room
    have space : rest.flatten.length ≤ (buffer.append piece).size := by
      simp only [append]
      omega
    rw [copyPieces, node2Buf_eq (by omega)]
    simp only [Nat.lt_irrefl, if_false]
    rw [ih space, append_append, List.flatten_cons]

end EncodeBuffer

section Rendering

def XmlAttribute.render (attr : XmlAttribute) : Text :=
  attr.name ++ '=' :: '"' :: (attr.stringData ++ ['"'])

def renderAttributes : List XmlAttribute → Text
  | [] => []
  | attr :: rest => ' ' :: (attr.render ++ renderAttributes rest)

def indent (level : Nat) : Text := List.replicate (level * spacesPerLevel) ' '

def lineStart (level : Nat) (bIgnoreXMLHeader : Bool) : Text :=
  if level = 0 && !bIgnoreXMLHeader then xmlHeader ++ ['\n'] else indent level

def endTag (name : Text) : Text := '<' :: '/' :: (name ++ ['>', '\n'])

def textLine (level : Nat) : Option Text → Text
  | none => []
  | some text => indent (level + 1) ++ (text ++ ['\n'])

namespace XmlTag

def opening (tag : XmlTag) : Text := '<' :: (tag.name ++ renderAttributes tag.attributes)

def closing (tag : XmlTag) (level : Nat) (isLeaf : Bool) (childrenText : Text) : Text :=
  if isLeaf then
    if tag.dataSize = 0 then [' ', '/', '>', '\n'] else '>' :: (tag.text ++ endTag tag.name)
  else '>' :: '\n' :: (textLine level tag.stringData ++ (childrenText ++ (indent level ++ endTag tag.name)))

def render (tag : XmlTag) (level : Nat) (isLeaf : Bool) (childrenText : Text) : Text :=
  tag.opening ++ tag.closing level isLeaf childrenText

end XmlTag

def XmlNodes.render (level : Nat) : XmlNodes → Text
  | nil => []
  | cons tag children next =>
    indent level ++ (tag.render level children.noHeadChild (children.render (level + 1)) ++ next.render level)

def XmlNode.render (node : XmlNode) (level : Nat) (bIgnoreXMLHeader : Bool) : Text :=
  lineStart level bIgnoreXMLHeader ++
    node.tag.render level node.children.noHeadChild (node.children.render (level + 1))

end Rendering

section Sizes

theorem length_renderAttributes (attributes : List XmlAttribute) :
    (renderAttributes attributes).length = (attributes.map fun attr => 1 + attr.bufSize).sum := by
  induction attributes with
  | nil => rfl
  | cons attr rest ih =>
    simp [renderAttributes, XmlAttribute.render, XmlAttribute.bufSize, ih]
    omega

theorem XmlTag.length_render (tag : XmlTag) (level : Nat) (bIgnoreXMLHeader isLeaf : Bool)
    (childrenText : Text) :
    (lineStart level bIgnoreXMLHeader ++ tag.render level isLeaf childrenText).length =
      tag.encodedSize level bIgnoreXMLHeader isLeaf childrenText.length := by
  have start : (lineStart level bIgnoreXMLHeader).length =
      if level = 0 && !bIgnoreXMLHeader then xmlHeader.length + 1 else level * spacesPerLevel := by
    rw [lineStart]
    split_ifs <;> simp [indent]
  have line : (textLine level tag.stringData).length =
      if tag.stringData.isSome then (level + 1) * spacesPerLevel + tag.dataSize + 1 else 0 := by
    cases data : tag.stringData <;> simp [textLine, indent, XmlTag.dataSize, XmlTag.text, data]
    omega
  have size : tag.text.length = tag.dataSize := rfl
  rw [List.length_append, start, render, List.length_append, opening, List.length_cons, List.length_append,
    length_renderAttributes, closing, encodedSize]
  generalize (if level = 0 && !bIgnoreXMLHeader then xmlHeader.length + 1 else level * spacesPerLevel) = header
  generalize (if tag.stringData.isSome then (level + 1) * spacesPerLevel + tag.dataSize + 1 else 0) = text at line ⊢
  cases isLeaf with
  | true =>
    by_cases empty : tag.dataSize = 0
    · simp [empty]
      omega
    · simp [empty, endTag, size]
      omega
  | false =>
    simp [endTag, indent, line]
    omega

theorem XmlNodes.length_render (nodes : XmlNodes) (level : Nat) (deeper : 0 < level) :
    (nodes.render level).length = nodes.encodedSize level := by
  induction nodes generalizing level with
  | nil => rfl
  | cons tag children next childrenIh nextIh =>
    have start : lineStart level false = indent level := by simp [lineStart, Nat.ne_of_gt deeper]
    have whole := tag.length_render level false children.noHeadChild (children.render (level + 1))
    rw [start, childrenIh (level + 1) (by omega)] at whole
    rw [render, encodedSize, ← List.append_assoc, List.length_append, whole, nextIh level deeper]

theorem XmlNode.length_render (node : XmlNode) (level : Nat) (bIgnoreXMLHeader : Bool) :
    (node.render level bIgnoreXMLHeader).length = node.getEncodedSize level bIgnoreXMLHeader := by
  rw [render, node.tag.length_render, getEncodedSize, node.children.length_render (level + 1) (by omega)]

end Sizes

section Encoding

namespace EncodeBuffer

theorem writes_encodeAttributes (attributes : List XmlAttribute) :
    Writes (encodeAttributes attributes) (renderAttributes attributes) := by
  induction attributes with
  | nil => exact writes_nil
  | cons attr rest ih =>
    have attrWritten : Writes (fun buffer => .ok (buffer.encodeAttr2Buf attr)) attr.render := by
      intro buffer room
      have pieces : [attr.name, ['='], ['"'], attr.stringData, ['"']].flatten = attr.render := by
        simp [XmlAttribute.render]
      rw [← pieces] at room ⊢
      simp only [encodeAttr2Buf, copyPieces_eq _ room]
    exact (writes_copyAll [' ']).bind (attrWritten.bind ih)

theorem writes_encodeStart (tag : XmlTag) (level : Nat) (bIgnoreXMLHeader : Bool) :
    Writes (encodeStart tag level bIgnoreXMLHeader) (lineStart level bIgnoreXMLHeader ++ tag.opening) := by
  have line : Writes (encodeLineStart level bIgnoreXMLHeader) (lineStart level bIgnoreXMLHeader) := by
    intro buffer room
    simp only [lineStart] at room ⊢
    simp only [encodeLineStart]
    split_ifs at room ⊢
    · exact (writes_copyAll xmlHeader).bind writes_encodeLinefeed buffer room
    · exact writes_encodeSpaces _ buffer room
  exact line.bind ((writes_copyAll ['<']).bind ((writes_copyAll tag.name).bind
    (writes_encodeAttributes tag.attributes)))

theorem writes_encodeEndTag (name : Text) : Writes (encodeEndTag name) (endTag name) :=
  (writes_copyAll ['<', '/']).bind ((writes_copyAll name).bind ((writes_copyAll ['>']).bind
    (writes_copyAll ['\n'])))

theorem writes_encodeTextLine (stringData : Option Text) (level : Nat) :
    Writes (encodeTextLine stringData level) (textLine level stringData) := by
  cases stringData with
  | none => exact writes_nil
  | some text =>
    intro buffer room
    have indented : (level + 1) * spacesPerLevel ≤ buffer.size := by
      simp only [textLine, indent, List.length_append, List.length_replicate] at room
      omega
    have some : (level + 1) * spacesPerLevel ≠ 0 := by simp [spacesPerLevel]
    have line := (writes_encodeSpaces ((level + 1) * spacesPerLevel)).bind
      ((writes_copyAll text).bind (writes_copyAll ['\n'])) buffer room
    simp only [encodeSpaces_eq _ indented] at line
    simp only [encodeTextLine, encodeSpaces_eq _ indented, some, if_false]
    exact line

theorem writes_encodeTag (tag : XmlTag) (level : Nat) (bIgnoreXMLHeader isLeaf : Bool)
    {encodeChildren : EncodeBuffer → Except AnscStatus EncodeBuffer} {childrenText : Text}
    (writes : Writes encodeChildren childrenText) :
    Writes (encodeTag tag level bIgnoreXMLHeader isLeaf encodeChildren)
      (lineStart level bIgnoreXMLHeader ++ tag.render level isLeaf childrenText) := by
  have lastLine : Writes (fun buffer =>
      if (buffer.encodeSpaces (level * spacesPerLevel)).1 ≠ level * spacesPerLevel then .error .resources
      else (buffer.encodeSpaces (level * spacesPerLevel)).2.encodeEndTag tag.name)
      (indent level ++ endTag tag.name) := by
    intro buffer room
    have indented : level * spacesPerLevel ≤ buffer.size := by
      simp only [indent, List.length_append, List.length_replicate] at room
      omega
    have line := (writes_encodeSpaces (level * spacesPerLevel)).bind (writes_encodeEndTag tag.name) buffer room
    simp only [encodeSpaces_eq _ indented] at line
    simp only [encodeSpaces_eq _ indented, ne_eq, not_true_eq_false, if_false]
    exact line
  rw [XmlTag.render, ← List.append_assoc]
  refine (writes_encodeStart tag level bIgnoreXMLHeader).bind ?_
  rw [XmlTag.closing]
  cases isLeaf with
  | true =>
    by_cases empty : tag.dataSize = 0
    · simp only [empty, if_true]
      exact (writes_copyAll [' ']).bind ((writes_copyAll ['/', '>']).bind writes_encodeLinefeed)
    · simp only [empty, if_true, if_false]
      exact (writes_copyAll ['>']).bind ((writes_copyAll tag.text).bind (writes_encodeEndTag tag.name))
  | false =>
    simp only [Bool.false_eq_true, if_false]
    exact (writes_copyAll ['>']).bind ((writes_copyAll ['\n']).bind
      ((writes_encodeTextLine tag.stringData level).bind (writes.bind lastLine)))

end EncodeBuffer

theorem XmlNodes.writes_encode (nodes : XmlNodes) (level : Nat) (deeper : 0 < level) :
    EncodeBuffer.Writes (nodes.encode level) (nodes.render level) := by
  induction nodes generalizing level with
  | nil => exact EncodeBuffer.writes_nil
  | cons tag children next childrenIh nextIh =>
    intro buffer room
    have start : lineStart level false = indent level := by simp [lineStart, Nat.ne_of_gt deeper]
    have below := childrenIh (level + 1) (by omega)
    have predicted := tag.length_render level false children.noHeadChild (children.render (level + 1))
    rw [start, children.length_render (level + 1) (by omega)] at predicted
    have written := EncodeBuffer.writes_encodeTag tag level false children.noHeadChild below
    rw [start] at written
    rw [render, ← List.append_assoc, List.length_append, predicted] at room
    have some : 0 < tag.encodedSize level false children.noHeadChild (children.encodedSize (level + 1)) := by
      rw [← predicted]
      simp only [List.length_append, XmlTag.render, XmlTag.opening, List.length_cons]
      omega
    have childWritten := written ⟨[], buffer.size⟩ (by rw [predicted]; simp only; omega)
    -- the predicted size is the size of what was written, so `pBuf` moves behind it
    have placed : buffer.place (tag.encodedSize level false children.noHeadChild (children.encodedSize (level + 1)))
        (EncodeBuffer.append ⟨[], buffer.size⟩ (indent level ++
          tag.render level children.noHeadChild (children.render (level + 1)))) =
        buffer.append (indent level ++ tag.render level children.noHeadChild (children.render (level + 1))) := by
      rw [← predicted]
      generalize indent level ++ tag.render level children.noHeadChild (children.render (level + 1)) = text
      simp [EncodeBuffer.place, EncodeBuffer.append]
    rw [encode, if_neg (by omega), if_neg (by omega), childWritten]
    change next.encode level _ = _
    rw [placed, nextIh level deeper _ (by simp only [EncodeBuffer.append, predicted]; omega),
      EncodeBuffer.append_append, render, List.append_assoc]

theorem XmlNode.encode_eq (node : XmlNode) (level : Nat) (bIgnoreXMLHeader : Bool) {ulSize : Nat}
    (room : node.getEncodedSize level bIgnoreXMLHeader ≤ ulSize) :
    node.encode level bIgnoreXMLHeader ulSize =
      .ok ⟨node.render level bIgnoreXMLHeader, ulSize - node.getEncodedSize level bIgnoreXMLHeader⟩ := by
  have written := EncodeBuffer.writes_encodeTag node.tag level bIgnoreXMLHeader node.children.noHeadChild
    (node.children.writes_encode (level + 1) (by omega)) ⟨[], ulSize⟩
  rw [← node.length_render] at room ⊢
  exact written room

end Encoding

end CcspCommon.AnscXmlDomParser
