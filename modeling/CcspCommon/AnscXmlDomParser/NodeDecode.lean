import CcspCommon.AnscXmlDomParser.Parser

set_option autoImplicit false

namespace CcspCommon.AnscXmlDomParser

open CcspCommon.Shared

section Words

-- A `LONG` lies between `-word` and `word`, a `ULONG` and an address below `2 * word`.
variable (word : Nat)

def ulong (n : Int) : Nat := (n % (2 * word)).toNat

def long (n : Nat) : Int := if n < word then n else n - 2 * word

variable {word}

theorem ulong_cast (some : 0 < word) (n : Int) : (ulong word n : Int) = n % (2 * word) := by
  have positive := Int.emod_nonneg n (b := 2 * (word : Int)) (by omega)
  rw [ulong, Int.toNat_of_nonneg positive]

theorem long_ulong {n : Int} (low : -(word : Int) ≤ n) (high : n < word) : long word (ulong word n) = n := by
  have some : 0 < word := by omega
  have cast := ulong_cast some n
  by_cases negative : n < 0
  · have shifted : n % (2 * word) = n + 2 * word := by
      rw [← Int.add_emod_right, Int.emod_eq_of_lt (by omega) (by omega)]
    rw [long, if_neg (by omega)]
    omega
  · rw [Int.emod_eq_of_lt (by omega) (by omega)] at cast
    rw [long, if_pos (by omega), cast]

theorem ulong_back (start size : Int) {target : Int} (low : 0 ≤ target) (high : target < 2 * word) :
    (ulong word (start + (size - ulong word (size - (target - start)))) : Int) = target := by
  have some : 0 < word := by omega
  rw [ulong_cast some, ulong_cast some]
  have split := Int.emod_add_mul_ediv (size - (target - start)) (2 * word)
  have same : start + (size - (size - (target - start)) % (2 * word)) =
      target + 2 * word * ((size - (target - start)) / (2 * word)) := by
    omega
  rw [same, Int.add_mul_emod_self_left, Int.emod_eq_of_lt low high]

end Words

section Decode

def address (stop : Nat) : Option Text → Int
  | none => 0
  | some text => stop - text.length

def pointerAt (stop : Nat) (text : Text) (value : Nat) : Option Text :=
  if value = 0 then none else some (text.drop (value - address stop (some text)).toNat)

-- `strcpy_s` leaves the zeroed name alone when the terminator does not fit as well.
def strcpyName (maximum : Nat) (name : Text) : Text := if name.length < maximum then name else []

variable (heap : BehindBuffer)

def decodeName (maximum : Nat) (invalid : AnscStatus) (name : Text) : Except Stop Text :=
  if name.length > maximum then .error (.status .xmlInvalidLength)
  else if name.length = maximum ∧ heap = .unreadable then .error .fault
  else if isValidName name then .ok (strcpyName maximum name)
  else .error (.status invalid)

def decodeTagStart (excess : Int) (buffer : Text) : Except Stop TagStart :=
  match buffer with
  | [] => .error .fault
  | _ :: rest => do
    match ← gotoFirstCharExcept excess rest with
    | none => .error (.status .xmlMissedEndTag)
    | some nodes =>
      match strstr ['>'] nodes with
      | none => .error (.status .xmlMissedEndTag)
      | some endOfNode =>
        match gotoFirstWantedChar excess special nodes with
        | none => .error (.status .xmlMissedEndTag)
        | some firstSpace =>
          let endOfNodeName :=
            if firstSpace.length < endOfNode.length then
              let before := buffer.drop (buffer.length - endOfNode.length - 1)
              if before.head? = some '/' then before else endOfNode
            else firstSpace
          if nodes.length < endOfNodeName.length then .error .fault
          else do
            let name ← decodeName heap maximumNodeName .xmlInvalidNodeName (between nodes endOfNodeName)
            .ok ⟨name, endOfNodeName, endOfNode⟩

def decodeAttributeValue (excess : Int) (endOfNode endOfAttribute : Text) : Except Stop (Text × Text) := do
  match ← gotoFirstCharExcept excess endOfAttribute with
  | none => .error (.status .xmlEqualSignMissed)
  | some equalSign =>
    if !isStringStartWith excess equalSign ['='] then .error (.status .xmlEqualSignMissed)
    else do
      match ← gotoFirstCharExcept excess (equalSign.drop 1) with
      | none => .error (.status .xmlStringSignMissed)
      | some quote =>
        if !isStringStartWith excess quote ['"'] then .error (.status .xmlStringSignMissed)
        else
          let startOfAttrValue := quote.drop 1
          match strstr ['"'] startOfAttrValue with
          | none => .error (.status .xmlStringSignMissed)
          | some endOfAttrValue =>
            if endOfAttrValue.length ≤ endOfNode.length then .error (.status .xmlStringSignMissed)
            else .ok (between startOfAttrValue endOfAttrValue, endOfAttrValue.drop 1)

def decodeAttributes (excess : Int) (endOfNode : Text) :
    Nat → Option Text → Except Stop (List XmlAttribute × Text)
  | _, none => .error (.status .xmlMissedEndTag)
  | 0, some _ => .error .exhausted
  | fuel + 1, some start =>
    if isStringStartWith excess start ['/', '>'] || isStringStartWith excess start ['>'] then .ok ([], start)
    else
      match gotoFirstWantedChar excess wanted start with
      | none => .error (.status .xmlEqualSignMissed)
      | some endOfAttribute =>
        if endOfAttribute.length ≤ endOfNode.length then .error (.status .xmlEqualSignMissed)
        else if endOfAttribute.length = start.length then .error (.status .xmlInvalidAttributeName)
        else do
          let name ← decodeName heap maximumAttributeName .xmlInvalidAttributeName (between start endOfAttribute)
          let (value, behind) ← decodeAttributeValue excess endOfNode endOfAttribute
          let next ← gotoFirstCharExcept excess behind
          if next = some behind &&
            !(isStringStartWith excess behind ['>'] || isStringStartWith excess behind ['/', '>'])
          then .error (.status .xmlSpaceNeeded)
          else do
            let (attributes, last) ← decodeAttributes excess endOfNode fuel next
            .ok (⟨name, value⟩ :: attributes, last)

def decodeTagEnd (excess : Int) (start : TagStart) : Except Stop (List XmlAttribute × Text) :=
  if start.endOfNode.length < start.endOfNodeName.length then do
    let next ← gotoFirstCharExcept excess start.endOfNodeName
    decodeAttributes heap excess start.endOfNode start.endOfNodeName.length next
  else .ok ([], start.endOfNode)

def decodeText (excess : Int) (behindTag : Text) : Except Stop (Option Text × Text) := do
  match ← gotoFirstCharExcept excess behindTag with
  | none => .error (.status .xmlMissedEndTag)
  | some startOfText =>
    match strstr ['<'] startOfText with
    | none => .error .fault
    | some nextTag =>
      let size := getStringEndExcept startOfText (startOfText.length - nextTag.length)
      let stringData := if size = 0 then none else some (startOfText.take size)
      match strstr ['<'] (startOfText.drop size) with
      | none => .error .fault
      | some nodes => .ok (stringData, nodes)

def decodeEndTag (excess : Int) (name nodes : Text) : Except Stop (Option Text) :=
  let nodes := nodes.drop 2
  if !isStringStartWith excess nodes name then .error (.status .xmlMissedEndTag)
  else do
    match ← gotoFirstCharExcept excess (nodes.drop name.length) with
    | none => .error .fault
    | some tagEnd =>
      if tagEnd.head? ≠ some '>' then .error (.status .xmlMissedEndTag)
      else gotoFirstCharExcept excess (tagEnd.drop 1)

variable (word stop : Nat)

mutual

def nodeDecode (level : Nat) : Nat → Text → Nat → Except Stop (XmlNode × Nat)
  | 0, _, _ => .error .exhausted
  | fuel + 1, buffer, ulSize => do
    let length := long word ulSize
    let excess := length - buffer.length
    let remaining (behind : Option Text) :=
      ulong word (ulSize - (address stop behind - address stop (some buffer)))
    let ⟨name, endOfNodeName, endOfNode⟩ ← decodeTagStart heap excess buffer
    if endOfNodeName.length = endOfNode.length + 1 && endOfNodeName.head? = some '/' then
      .ok (⟨⟨name, [], none⟩, .nil⟩, remaining (some (endOfNode.drop 1)))
    else do
      let (attributes, tagEnd) ← decodeTagEnd heap excess ⟨name, endOfNodeName, endOfNode⟩
      if ['/', '>'].isPrefixOf tagEnd then
        .ok (⟨⟨name, attributes, none⟩, .nil⟩, remaining (some (tagEnd.drop 2)))
      else do
        let (stringData, nodes) ← decodeText excess (endOfNode.drop 1)
        let (children, last) ← decodeChildren excess level fuel (some nodes)
        let behind ← decodeEndTag excess name last
        .ok (⟨⟨name, attributes, stringData⟩, children⟩, remaining behind)

def decodeChildren (excess : Int) (level : Nat) : Nat → Option Text → Except Stop (XmlNodes × Text)
  | _, none => .error (.status .xmlMissedEndTag)
  | 0, some _ => .error .exhausted
  | fuel + 1, some nodes =>
    if isStringStartWith excess nodes ['<', '/'] then .ok (.nil, nodes)
    else do
      let nodes ← findNode excess (level + 1) nodes
      if isStringStartWith excess nodes ['<', '/'] then .ok (.nil, nodes)
      else do
        let ulPrevBufLen := ulong word (nodes.length + excess)
        let (child, ulBufLen) ← nodeDecode (level + 1) fuel nodes ulPrevBufLen
        -- the pointer moves by as much as the remaining length was decreased
        match pointerAt stop nodes (ulong word (address stop (some nodes) + (ulPrevBufLen - ulBufLen))) with
        | none => .error .fault
        | some behind => do
          let next ← gotoFirstCharExcept excess behind
          let (rest, last) ← decodeChildren excess level fuel next
          .ok (.cons child.tag child.children rest, last)

end

end Decode

end CcspCommon.AnscXmlDomParser
