import CcspCommon.AnscXmlDomParser.Encoding
import CcspCommon.AnscXmlDomParser.Escaping
import CcspCommon.AnscXmlDomParser.Parser

set_option autoImplicit false

namespace CcspCommon.AnscXmlDomParser

open CcspCommon.Shared
open CcspCommon.AnscPlatform (ushort)

/-- An attribute that was set to an empty value has no string, and the encoder takes `strlen` of it. -/
structure StoredAttribute where
  name : Text
  stringData : Option Text
  deriving DecidableEq, Repr

structure StoredTag where
  name : Text
  attributes : List StoredAttribute
  stringData : Option Text
  deriving DecidableEq, Repr

inductive StoredNodes
  | nil
  | cons (tag : StoredTag) (children next : StoredNodes)
  deriving DecidableEq, Repr

structure StoredNode where
  tag : StoredTag
  children : StoredNodes
  deriving DecidableEq, Repr

def StoredNodes.length : StoredNodes → Nat
  | nil => 0
  | cons _ _ next => next.length + 1

def StoredNodes.noHeadChild (children : StoredNodes) : Bool := ushort children.length = 0

section Setting

def putAttribute (attr : StoredAttribute) : List StoredAttribute → List StoredAttribute
  | [] => [attr]
  | first :: rest => if first.name = attr.name then attr :: rest else first :: putAttribute attr rest

def StoredTag.setAttrString (tag : StoredTag) (name : Text) (sTarget : Option Text) :
    Option (Except AnscStatus StoredTag) :=
  if !isValidName name then some (.error .xmlInvalidAttributeName)
  else do
    let escaped ← escapeChars sTarget
    if maximumAttributeName ≤ name.length then none
    else some (.ok { tag with attributes := putAttribute ⟨name, escaped.pOutString⟩ tag.attributes })

end Setting

section Size

def StoredAttribute.getAttr2BufSize (attr : StoredAttribute) : Option Nat :=
  attr.stringData.map fun stringData => attr.name.length + 1 + 1 + stringData.length + 1

def attributesSize : List StoredAttribute → Option Nat
  | [] => some 0
  | attr :: rest => do
    let size ← attr.getAttr2BufSize
    let more ← attributesSize rest
    some (1 + size + more)

def StoredTag.dataSize (tag : StoredTag) : Nat := (tag.stringData.getD []).length

def StoredTag.encodedSize (tag : StoredTag) (level : Nat) (bIgnoreXMLHeader isLeaf : Bool)
    (childrenSize : Option Nat) : Option Nat := do
  let header := if level = 0 && !bIgnoreXMLHeader then xmlHeader.length + 1 else level * spacesPerLevel
  let attributes ← attributesSize tag.attributes
  let start := header + 1 + tag.name.length + attributes
  if isLeaf then
    if tag.dataSize = 0 then some (start + 1 + 2 + 1)
    else some (start + 1 + tag.dataSize + 2 + tag.name.length + 1 + 1)
  else do
    let text := if tag.stringData.isSome then (level + 1) * spacesPerLevel + tag.dataSize + 1 else 0
    let children ← childrenSize
    some (start + 1 + 1 + text + children + level * spacesPerLevel + 2 + tag.name.length + 1 + 1)

def StoredNodes.encodedSize (level : Nat) : StoredNodes → Option Nat
  | nil => some 0
  | cons tag children next => do
    let first ← tag.encodedSize level false children.noHeadChild (children.encodedSize (level + 1))
    let others ← next.encodedSize level
    some (first + others)

def StoredNode.getEncodedSize (node : StoredNode) (level : Nat) (bIgnoreXMLHeader : Bool) : Option Nat :=
  node.tag.encodedSize level bIgnoreXMLHeader node.children.noHeadChild (node.children.encodedSize (level + 1))

end Size

section Loaded

def StoredAttribute.loaded (attr : StoredAttribute) : Option XmlAttribute :=
  attr.stringData.map fun stringData => ⟨attr.name, stringData⟩

def loadedAttributes : List StoredAttribute → Option (List XmlAttribute)
  | [] => some []
  | attr :: rest => do
    let first ← attr.loaded
    let others ← loadedAttributes rest
    some (first :: others)

def StoredTag.loaded (tag : StoredTag) : Option XmlTag :=
  (loadedAttributes tag.attributes).map fun attributes => ⟨tag.name, attributes, tag.stringData⟩

/-- The tree that the encoder works on when every string it takes is there. It does not look at the
children of a node that has no head child. -/
def StoredNodes.loaded : StoredNodes → Option XmlNodes
  | nil => some .nil
  | cons tag children next => do
    let tag ← tag.loaded
    let children ← (if children.noHeadChild then some .nil else children.loaded)
    let next ← next.loaded
    some (.cons tag children next)

def StoredNodes.shown (children : StoredNodes) : Option XmlNodes :=
  if children.noHeadChild then some .nil else children.loaded

def StoredNode.loaded (node : StoredNode) : Option XmlNode := do
  let tag ← node.tag.loaded
  let children ← node.children.shown
  some ⟨tag, children⟩

def StoredNodes.reached : StoredNodes → List StoredAttribute
  | nil => []
  | cons tag children next =>
    tag.attributes ++ ((if children.noHeadChild then [] else children.reached) ++ next.reached)

def StoredNode.reached (node : StoredNode) : List StoredAttribute :=
  node.tag.attributes ++ if node.children.noHeadChild then [] else node.children.reached

variable {attributes : List StoredAttribute} {tag : StoredTag} {nodes : StoredNodes} {node : StoredNode}

theorem attributesSize_eq : attributesSize attributes =
    (loadedAttributes attributes).map fun loaded => (loaded.map fun attr => 1 + attr.bufSize).sum := by
  induction attributes with
  | nil => rfl
  | cons attr rest ih =>
    cases data : attr.stringData with
    | none => simp [attributesSize, loadedAttributes, StoredAttribute.getAttr2BufSize, StoredAttribute.loaded, data]
    | some stringData =>
      simp only [attributesSize, loadedAttributes, StoredAttribute.getAttr2BufSize, StoredAttribute.loaded, data, ih,
        Option.map_some, Option.bind_eq_bind, Option.bind_some]
      cases loadedAttributes rest with
      | none => rfl
      | some others =>
        simp only [Option.map_some, Option.bind_some, List.map_cons, List.sum_cons, XmlAttribute.bufSize]

theorem loadedAttributes_isSome :
    (loadedAttributes attributes).isSome = true ↔ ∀ attr ∈ attributes, attr.stringData ≠ none := by
  induction attributes with
  | nil => simp [loadedAttributes]
  | cons attr rest ih =>
    rw [List.forall_mem_cons, ← ih]
    cases data : attr.stringData with
    | none => simp [loadedAttributes, StoredAttribute.loaded, data]
    | some stringData =>
      simp only [loadedAttributes, StoredAttribute.loaded, data, Option.map_some, Option.bind_eq_bind,
        Option.bind_some]
      cases loadedAttributes rest <;> simp

theorem StoredTag.encodedSize_of_loaded {loaded : XmlTag} (whole : tag.loaded = some loaded) (level : Nat)
    (bIgnoreXMLHeader isLeaf : Bool) (childrenSize : Nat) :
    tag.encodedSize level bIgnoreXMLHeader isLeaf (some childrenSize) =
      some (loaded.encodedSize level bIgnoreXMLHeader isLeaf childrenSize) := by
  simp only [StoredTag.loaded, Option.map_eq_some_iff] at whole
  obtain ⟨attributes, strings, rfl⟩ := whole
  simp only [encodedSize, attributesSize_eq, strings, Option.map_some, Option.bind_eq_bind, Option.bind_some,
    XmlTag.encodedSize, dataSize, XmlTag.dataSize, XmlTag.text]
  cases isLeaf with
  | true => by_cases empty : (tag.stringData.getD []).length = 0 <;> simp only [empty, if_true, if_false]
  | false => rfl

theorem StoredTag.encodedSize_none (missing : tag.loaded = none) (level : Nat) (bIgnoreXMLHeader isLeaf : Bool)
    (childrenSize : Option Nat) : tag.encodedSize level bIgnoreXMLHeader isLeaf childrenSize = none := by
  simp only [StoredTag.loaded, Option.map_eq_none_iff] at missing
  simp [encodedSize, attributesSize_eq, missing]

theorem StoredTag.encodedSize_leaf {loaded : XmlTag} (whole : tag.loaded = some loaded) (level : Nat)
    (bIgnoreXMLHeader : Bool) (childrenSize : Option Nat) (shownSize : Nat) :
    tag.encodedSize level bIgnoreXMLHeader true childrenSize =
      some (loaded.encodedSize level bIgnoreXMLHeader true shownSize) :=
  tag.encodedSize_of_loaded whole level bIgnoreXMLHeader true shownSize

theorem StoredNodes.length_loaded {loaded : XmlNodes} (whole : nodes.loaded = some loaded) :
    loaded.length = nodes.length := by
  induction nodes generalizing loaded with
  | nil =>
    obtain rfl := Option.some.inj whole
    rfl
  | cons tag children next _ nextIh =>
    simp only [StoredNodes.loaded, Option.bind_eq_bind, Option.bind_eq_some_iff] at whole
    obtain ⟨first, _, below, _, others, isOthers, same⟩ := whole
    obtain rfl := Option.some.inj same
    rw [XmlNodes.length, StoredNodes.length, nextIh isOthers]

theorem StoredTag.encodedSize_children_none (level : Nat) (bIgnoreXMLHeader : Bool) :
    tag.encodedSize level bIgnoreXMLHeader false none = none := by
  simp only [encodedSize, Option.bind_eq_bind]
  cases attributesSize tag.attributes <;> rfl

theorem StoredTag.encodedSize_eq (tag : StoredTag) (level : Nat) (bIgnoreXMLHeader : Bool) {children : StoredNodes}
    (below : children.encodedSize (level + 1) = children.loaded.map (XmlNodes.encodedSize (level + 1))) :
    tag.encodedSize level bIgnoreXMLHeader children.noHeadChild (children.encodedSize (level + 1)) =
      tag.loaded.bind fun tag => children.shown.map fun children =>
        tag.encodedSize level bIgnoreXMLHeader children.noHeadChild (children.encodedSize (level + 1)) := by
  cases whole : tag.loaded with
  | none => rw [tag.encodedSize_none whole, Option.bind_none]
  | some loaded =>
    rw [StoredNodes.shown, Option.bind_some]
    cases leaf : children.noHeadChild with
    | true => exact tag.encodedSize_leaf whole level bIgnoreXMLHeader _ _
    | false =>
      rw [below]
      cases strings : children.loaded with
      | none => exact encodedSize_children_none level bIgnoreXMLHeader
      | some inner =>
        have same : inner.noHeadChild = false := by
          rw [← leaf, XmlNodes.noHeadChild, StoredNodes.length_loaded strings, StoredNodes.noHeadChild]
        simp only [Option.map_some, Bool.false_eq_true, if_false, same]
        exact tag.encodedSize_of_loaded whole level bIgnoreXMLHeader _ _

theorem StoredNodes.encodedSize_eq (nodes : StoredNodes) (level : Nat) :
    nodes.encodedSize level = nodes.loaded.map (XmlNodes.encodedSize level) := by
  induction nodes generalizing level with
  | nil => rfl
  | cons tag children next childrenIh nextIh =>
    simp only [encodedSize, loaded, nextIh, Option.bind_eq_bind,
      tag.encodedSize_eq level false (childrenIh (level + 1))]
    rw [← shown]
    cases tag.loaded with
    | none => rfl
    | some tag =>
      cases children.shown with
      | none => rfl
      | some children => cases next.loaded <;> rfl

theorem StoredNode.getEncodedSize_eq (node : StoredNode) (level : Nat) (bIgnoreXMLHeader : Bool) :
    node.getEncodedSize level bIgnoreXMLHeader =
      node.loaded.map fun loaded => loaded.getEncodedSize level bIgnoreXMLHeader := by
  simp only [getEncodedSize, loaded, Option.bind_eq_bind,
    node.tag.encodedSize_eq level bIgnoreXMLHeader (node.children.encodedSize_eq (level + 1))]
  cases node.tag.loaded with
  | none => rfl
  | some tag => cases node.children.shown <;> rfl

theorem StoredTag.loaded_isSome :
    tag.loaded.isSome = true ↔ ∀ attr ∈ tag.attributes, attr.stringData ≠ none := by
  rw [StoredTag.loaded, Option.isSome_map, loadedAttributes_isSome]

theorem StoredNodes.shown_isSome (below : nodes.loaded.isSome = true ↔ ∀ attr ∈ nodes.reached, attr.stringData ≠ none) :
    nodes.shown.isSome = true ↔
      ∀ attr ∈ (if nodes.noHeadChild then [] else nodes.reached), attr.stringData ≠ none := by
  rw [shown]
  cases nodes.noHeadChild with
  | true => simp
  | false => simpa using below

theorem StoredNodes.loaded_isSome :
    nodes.loaded.isSome = true ↔ ∀ attr ∈ nodes.reached, attr.stringData ≠ none := by
  induction nodes with
  | nil => simp [loaded, reached]
  | cons tag children next childrenIh nextIh =>
    have split : (StoredNodes.cons tag children next).loaded =
        tag.loaded.bind fun tag => children.shown.bind fun children => next.loaded.bind fun next =>
          some (.cons tag children next) := rfl
    simp only [reached, List.forall_mem_append, ← tag.loaded_isSome, ← shown_isSome childrenIh, ← nextIh, split]
    cases tag.loaded <;> cases children.shown <;> cases next.loaded <;> simp

theorem StoredNode.loaded_isSome :
    node.loaded.isSome = true ↔ ∀ attr ∈ node.reached, attr.stringData ≠ none := by
  simp only [reached, List.forall_mem_append, ← StoredTag.loaded_isSome,
    ← StoredNodes.shown_isSome StoredNodes.loaded_isSome]
  cases first : node.tag.loaded <;> cases below : node.children.shown <;> simp [loaded, first, below]

def StoredNode.SizePredicted (node : StoredNode) (level : Nat) (bIgnoreXMLHeader : Bool) : Prop :=
  ∃ ulEncodedSize loaded, node.getEncodedSize level bIgnoreXMLHeader = some ulEncodedSize ∧
    node.loaded = some loaded ∧ ∀ ulSize, ulEncodedSize ≤ ulSize →
      ∃ buffer, loaded.encode level bIgnoreXMLHeader ulSize = .ok buffer ∧ buffer.written.length = ulEncodedSize

theorem StoredNode.size_predicted_iff (node : StoredNode) (level : Nat) (bIgnoreXMLHeader : Bool) :
    node.SizePredicted level bIgnoreXMLHeader ↔ ∀ attr ∈ node.reached, attr.stringData ≠ none := by
  rw [← loaded_isSome]
  constructor
  next =>
    rintro ⟨_, loaded, _, whole, _⟩
    rw [whole]
    rfl
  next =>
    intro present
    obtain ⟨loaded, whole⟩ := Option.isSome_iff_exists.mp present
    refine ⟨loaded.getEncodedSize level bIgnoreXMLHeader, loaded, ?_, whole, ?_⟩
    · rw [getEncodedSize_eq, whole, Option.map_some]
    · intro ulSize room
      exact ⟨_, loaded.encode_eq level bIgnoreXMLHeader room, loaded.length_render level bIgnoreXMLHeader⟩

theorem empty_attribute_is_not_sized : ∃ tag, StoredTag.setAttrString ⟨['a'], [], none⟩ ['b'] (some []) =
    some (.ok tag) ∧ ¬ StoredNode.SizePredicted ⟨tag, .nil⟩ 0 false := by
  refine ⟨⟨['a'], [⟨['b'], none⟩], none⟩, by decide, ?_⟩
  rintro ⟨ulEncodedSize, loaded, sized, _⟩
  cases sized

end Loaded

end CcspCommon.AnscXmlDomParser
