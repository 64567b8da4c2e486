import CcspCommon.AnscXmlDomParser.Parser
import CcspCommon.Shared.Run

set_option autoImplicit false

namespace CcspCommon.AnscXmlDomParser

open CcspCommon.Shared

section Parts

def TagStart.isSimple (start : TagStart) : Bool :=
  start.endOfNodeName.length = start.endOfNode.length + 1 && start.endOfNodeName.head? = some '/'

def readTagEnd (heap : BehindBuffer) (excess : Int) (start : TagStart) : Except Stop (List XmlAttribute × Text) :=
  if start.endOfNode.length < start.endOfNodeName.length then do
    let next ← gotoFirstCharExcept excess start.endOfNodeName
    readAttributes heap excess start.endOfNode start.endOfNodeName.length next
  else .ok ([], start.endOfNode)

end Parts

section Suffixes

variable {heap : BehindBuffer}

theorem skipSpecial_suffix {n : Nat} {text next : Text} (done : skipSpecial n text = .ok next) : next <:+ text := by
  induction n generalizing text with
  | zero =>
    cases done
    exact List.suffix_rfl
  | succ n ih =>
    cases text with
    | nil => cases done
    | cons c rest =>
      rw [skipSpecial] at done
      split_ifs at done
      · exact (ih done).trans (List.suffix_cons c rest)
      · cases done
        exact List.suffix_rfl

theorem gotoFirstCharExcept_suffix {excess : Int} {text next : Text}
    (done : gotoFirstCharExcept excess text = .ok (some next)) : next <:+ text := by
  rw [gotoFirstCharExcept] at done
  split_ifs at done
  · cases done
  · cases skipped : skipSpecial (lengthAt excess text).toNat text with
    | error stop =>
      rw [skipped] at done
      cases done
    | ok found =>
      rw [skipped] at done
      cases done
      exact skipSpecial_suffix skipped

theorem skipUnwanted_suffix (stops : Char → Bool) (n : Nat) (text : Text) : skipUnwanted stops n text <:+ text := by
  induction n generalizing text with
  | zero => exact List.suffix_rfl
  | succ n ih =>
    cases text with
    | nil => exact List.suffix_rfl
    | cons c rest =>
      rw [skipUnwanted]
      split_ifs
      · exact List.suffix_rfl
      · exact (ih rest).trans (List.suffix_cons c rest)

theorem gotoFirstWantedChar_suffix {excess : Int} {stops : Char → Bool} {text next : Text}
    (done : gotoFirstWantedChar excess stops text = some next) : next <:+ text := by
  rw [gotoFirstWantedChar] at done
  split_ifs at done
  · cases done
    exact skipUnwanted_suffix stops _ text

theorem strstr_suffix {pattern text found : Text} (done : strstr pattern text = some found) : found <:+ text := by
  induction text with
  | nil =>
    rw [strstr] at done
    split_ifs at done
    · cases done
      exact List.suffix_rfl
  | cons c rest ih =>
    rw [strstr] at done
    split_ifs at done
    · cases done
      exact List.suffix_rfl
    · exact (ih done).trans (List.suffix_cons c rest)

theorem strstr_starts {pattern text found : Text} (located : strstr pattern text = some found) :
    pattern <+: found := by
  induction text with
  | nil =>
    rw [strstr] at located
    split_ifs at located with empty
    cases located
    rw [empty]
  | cons c rest ih =>
    rw [strstr] at located
    split_ifs at located with starts
    next =>
      cases located
      exact List.isPrefixOf_iff_prefix.mp starts
    next => exact ih located

theorem skipMarkup_suffix {excess : Int} {opening closing : Text} {missing : AnscStatus} {fuel : Nat}
    {text next : Text} (done : skipMarkup excess opening closing missing fuel text = .ok next) : next <:+ text := by
  induction fuel generalizing text with
  | zero => cases done
  | succ fuel ih =>
    rw [skipMarkup] at done
    split_ifs at done
    · split at done
      · cases done
      · next found located =>
        obtain ⟨skipped, goto, later⟩ := bind_eq_ok done
        cases skipped with
        | none => cases later
        | some start =>
          exact ((ih later).trans (gotoFirstCharExcept_suffix goto)).trans
            ((List.drop_suffix _ _).trans (strstr_suffix located))
    · cases done
      exact List.suffix_rfl

theorem findNode_suffix {excess : Int} {level : Nat} {content found : Text}
    (done : findNode excess level content = .ok found) : found <:+ content := by
  rw [findNode] at done
  generalize (if (content.length : Int) + excess ≤ 0 then 0 else excess) = excess at done
  obtain ⟨skipped, goto, later⟩ := bind_eq_ok done
  cases skipped with
  | none => cases later
  | some start =>
    have behind := gotoFirstCharExcept_suffix goto
    dsimp only at later
    split_ifs at later
    · obtain ⟨headers, skippedHeaders, comments⟩ := bind_eq_ok later
      exact ((skipMarkup_suffix comments).trans (skipMarkup_suffix skippedHeaders)).trans behind
    · obtain ⟨again, gotoAgain, rest⟩ := bind_eq_ok later
      cases again with
      | none => cases rest
      | some start =>
        obtain ⟨comments, skippedComments, located⟩ := bind_eq_ok rest
        split at located
        · cases located
        · next tag isTag =>
          cases located
          exact ((strstr_suffix isTag).trans (skipMarkup_suffix skippedComments)).trans
            ((gotoFirstCharExcept_suffix gotoAgain).trans behind)

theorem readTagStart_suffix {excess : Int} {content : Text} {start : TagStart}
    (done : readTagStart heap excess content = .ok start) :
    start.endOfNode <:+ content ∧ start.endOfNodeName <:+ content := by
  cases content with
  | nil => cases done
  | cons c rest =>
    rw [readTagStart] at done
    obtain ⟨skipped, goto, later⟩ := bind_eq_ok done
    cases skipped with
    | none => cases later
    | some nodes =>
      have behind := (gotoFirstCharExcept_suffix goto).trans (List.suffix_cons c rest)
      dsimp only at later
      split at later
      · next endOfNode firstSpace located spaced =>
        split_ifs at later <;> obtain ⟨name, -, made⟩ := bind_eq_ok later <;> cases made
        · exact ⟨(strstr_suffix located).trans behind, List.drop_suffix _ _⟩
        · exact ⟨(strstr_suffix located).trans behind, (strstr_suffix located).trans behind⟩
        · exact ⟨(strstr_suffix located).trans behind, (gotoFirstWantedChar_suffix spaced).trans behind⟩
      · cases later

theorem readAttributeValue_behind {excess : Int} {endOfNode endOfAttribute value behind : Text}
    (done : readAttributeValue excess endOfNode endOfAttribute = .ok (value, behind)) :
    behind <:+ endOfAttribute ∧ behind.length < endOfAttribute.length := by
  rw [readAttributeValue] at done
  obtain ⟨skipped, goto, later⟩ := bind_eq_ok done
  cases skipped with
  | none => cases later
  | some equalSign =>
    dsimp only at later
    split_ifs at later
    obtain ⟨again, gotoAgain, rest⟩ := bind_eq_ok later
    cases again with
    | none => cases rest
    | some quote =>
      dsimp only at rest
      split_ifs at rest
      split at rest
      · cases rest
      · next endOfValue located =>
        split_ifs at rest
        cases rest
        have inside := (strstr_suffix located).trans ((List.drop_suffix _ _).trans
          ((gotoFirstCharExcept_suffix gotoAgain).trans ((List.drop_suffix _ _).trans
            (gotoFirstCharExcept_suffix goto))))
        have quoted := (strstr_starts located).length_le
        have shorter := inside.length_le
        rw [List.length_singleton] at quoted
        rw [List.length_drop]
        exact ⟨(List.drop_suffix _ _).trans inside, by omega⟩

theorem readAttributes_suffix {excess : Int} {endOfNode : Text} {fuel : Nat} {start : Text}
    {attributes : List XmlAttribute} {last : Text}
    (done : readAttributes heap excess endOfNode fuel (some start) = .ok (attributes, last)) : last <:+ start := by
  induction fuel generalizing start attributes with
  | zero => cases done
  | succ fuel ih =>
    rw [readAttributes] at done
    split_ifs at done
    · cases done
      exact List.suffix_rfl
    · split at done
      · cases done
      · next endOfAttribute wantedChar =>
        split_ifs at done
        obtain ⟨name, -, read⟩ := bind_eq_ok done
        obtain ⟨⟨value, behind⟩, isValue, goesOn⟩ := bind_eq_ok read
        obtain ⟨next, goto, later⟩ := bind_eq_ok goesOn
        split_ifs at later
        obtain ⟨⟨others, rest⟩, readOthers, made⟩ := bind_eq_ok later
        cases made
        cases next with
        | none => simp [readAttributes] at readOthers
        | some text =>
          exact ((ih readOthers).trans (gotoFirstCharExcept_suffix goto)).trans
            ((readAttributeValue_behind isValue).1.trans (gotoFirstWantedChar_suffix wantedChar))

theorem readText_suffix {excess : Int} {behindTag : Text} {stringData : Option Text} {nodes : Text}
    (done : readText excess behindTag = .ok (stringData, nodes)) : nodes <:+ behindTag := by
  rw [readText] at done
  obtain ⟨skipped, goto, later⟩ := bind_eq_ok done
  cases skipped with
  | none => cases later
  | some startOfText =>
    dsimp only at later
    split at later
    · cases later
    · split at later
      · cases later
      · next located =>
        cases later
        exact ((strstr_suffix located).trans (List.drop_suffix _ _)).trans (gotoFirstCharExcept_suffix goto)

theorem readEndTag_suffix {excess : Int} {name nodes behind : Text}
    (done : readEndTag excess name nodes = .ok (some behind)) : behind <:+ nodes := by
  rw [readEndTag] at done
  split_ifs at done
  obtain ⟨skipped, goto, later⟩ := bind_eq_ok done
  cases skipped with
  | none => cases later
  | some tagEnd =>
    dsimp only at later
    split_ifs at later
    exact ((gotoFirstCharExcept_suffix later).trans (List.drop_suffix _ _)).trans
      ((gotoFirstCharExcept_suffix goto).trans ((List.drop_suffix _ _).trans (List.drop_suffix _ _)))

theorem readTagEnd_suffix {excess : Int} {content : Text} {start : TagStart} {attributes : List XmlAttribute}
    {tagEnd : Text} (isStart : readTagStart heap excess content = .ok start)
    (read : readTagEnd heap excess start = .ok (attributes, tagEnd)) : tagEnd <:+ content := by
  obtain ⟨endOfNode, endOfNodeName⟩ := readTagStart_suffix isStart
  rw [readTagEnd] at read
  split_ifs at read
  · obtain ⟨next, goto, readRest⟩ := bind_eq_ok read
    cases next with
    | none => simp [readAttributes] at readRest
    | some next =>
      exact ((readAttributes_suffix readRest).trans (gotoFirstCharExcept_suffix goto)).trans endOfNodeName
  · cases read
    exact endOfNode

theorem fillContentOfNode_succ (heap : BehindBuffer) (excess : Int) (level fuel : Nat) (content : Text) :
    fillContentOfNode heap excess level (fuel + 1) content =
      (readTagStart heap excess content >>= fun start =>
        if start.isSimple then .ok (⟨⟨start.name, [], none⟩, .nil⟩, some (start.endOfNode.drop 1))
        else readTagEnd heap excess start >>= fun (attributes, tagEnd) =>
          if ['/', '>'].isPrefixOf tagEnd then
            .ok (⟨⟨start.name, attributes, none⟩, .nil⟩, some (tagEnd.drop 2))
          else readText excess (start.endOfNode.drop 1) >>= fun (stringData, nodes) =>
            fillChildren heap excess level fuel (some nodes) >>= fun (children, last) =>
              readEndTag excess start.name last >>= fun behind =>
                .ok (⟨⟨start.name, attributes, stringData⟩, children⟩, behind)) := by
  rw [fillContentOfNode]
  cases readTagStart heap excess content with
  | error stop => rfl
  | ok start =>
    change (if start.isSimple = true then _ else _) = (if start.isSimple = true then _ else _)
    by_cases simple : start.isSimple = true
    · rw [if_pos simple, if_pos simple]
    · rw [if_neg simple, if_neg simple, readTagEnd]
      by_cases longer : start.endOfNode.length < start.endOfNodeName.length
      · rw [if_pos longer, if_pos longer]
        cases gotoFirstCharExcept excess start.endOfNodeName with
        | error stop => rfl
        | ok next => rfl
      · rw [if_neg longer, if_neg longer]

/-- Both loops by induction on the fuel that they share. -/
theorem fill_suffix (heap : BehindBuffer) (excess : Int) (fuel : Nat) :
    (∀ {level : Nat} {content : Text} {node : XmlNode} {behind : Text},
      fillContentOfNode heap excess level fuel content = .ok (node, some behind) → behind <:+ content) ∧
    (∀ {level : Nat} {nodes : Text} {children : XmlNodes} {last : Text},
      fillChildren heap excess level fuel (some nodes) = .ok (children, last) → last <:+ nodes) := by
  induction fuel with
  | zero =>
    constructor
    · intro level content node behind done
      simp [fillContentOfNode] at done
    · intro level nodes children last done
      simp [fillChildren] at done
  | succ fuel ih =>
    constructor
    · intro level content node behind done
      rw [fillContentOfNode_succ] at done
      obtain ⟨start, isStart, later⟩ := bind_eq_ok done
      obtain ⟨endOfNode, endOfNodeName⟩ := readTagStart_suffix isStart
      by_cases simple : start.isSimple = true
      · rw [if_pos simple] at later
        cases later
        exact (List.drop_suffix _ _).trans endOfNode
      · rw [if_neg simple] at later
        obtain ⟨⟨attributes, tagEnd⟩, read, rest⟩ := bind_eq_ok later
        dsimp only at rest
        split_ifs at rest
        · cases rest
          exact (List.drop_suffix _ _).trans (readTagEnd_suffix isStart read)
        · obtain ⟨⟨stringData, nodes⟩, text, inNodes⟩ := bind_eq_ok rest
          obtain ⟨⟨children, last⟩, filled, inEnd⟩ := bind_eq_ok inNodes
          obtain ⟨found, ended, made⟩ := bind_eq_ok inEnd
          cases made
          exact ((readEndTag_suffix ended).trans (ih.2 filled)).trans
            ((readText_suffix text).trans ((List.drop_suffix _ _).trans endOfNode))
    · intro level nodes children last done
      rw [fillChildren] at done
      split_ifs at done
      · cases done
        exact List.suffix_rfl
      · obtain ⟨found, located, later⟩ := bind_eq_ok done
        have foundSuffix := findNode_suffix located
        split_ifs at later
        · cases later
          exact foundSuffix
        · obtain ⟨⟨child, behind⟩, filled, goesOn⟩ := bind_eq_ok later
          cases behind with
          | none => cases goesOn
          | some behind =>
            obtain ⟨next, goto, others⟩ := bind_eq_ok goesOn
            obtain ⟨⟨rest, end'⟩, filledRest, made⟩ := bind_eq_ok others
            cases made
            cases next with
            | none => simp [fillChildren] at filledRest
            | some next =>
              exact ((ih.2 filledRest).trans (gotoFirstCharExcept_suffix goto)).trans
                ((ih.1 filled).trans foundSuffix)

theorem findNode_nonempty {excess : Int} {level : Nat} {content found : Text}
    (done : findNode excess (level + 1) content = .ok found) : found ≠ [] := by
  rw [findNode] at done
  generalize (if (content.length : Int) + excess ≤ 0 then 0 else excess) = excess at done
  have stepped := bind_eq_ok done
  obtain ⟨start, -, later⟩ := stepped
  cases start with
  | none => cases later
  | some start =>
    dsimp only at later
    rw [if_neg (Nat.succ_ne_zero level)] at later
    have again := bind_eq_ok later
    obtain ⟨start, -, rest⟩ := again
    cases start with
    | none => cases rest
    | some start =>
      have comments := bind_eq_ok rest
      obtain ⟨text, -, search⟩ := comments
      cases located : strstr ['<'] text with
      | none => simp [located] at search
      | some tag =>
        simp only [located, Except.ok.injEq] at search
        rw [← search]
        have bracket := strstr_starts located
        rintro rfl
        simp at bracket

theorem readTagStart_shorter {excess : Int} {content : Text} {start : TagStart}
    (done : readTagStart heap excess content = .ok start) :
    start.endOfNode ≠ [] ∧ start.endOfNode.length < content.length := by
  cases content with
  | nil => cases done
  | cons c rest =>
    rw [readTagStart] at done
    have stepped := bind_eq_ok done
    obtain ⟨skipped, goto, later⟩ := stepped
    cases skipped with
    | none => cases later
    | some nodes =>
      dsimp only at later
      split at later
      next endOfNode firstSpace located spaced =>
        have shorter := ((strstr_suffix located).trans (gotoFirstCharExcept_suffix goto)).length_le
        have bracket := strstr_starts located
        have same : start.endOfNode = endOfNode := by
          split_ifs at later <;> obtain ⟨name, -, made⟩ := bind_eq_ok later <;> cases made <;> rfl
        rw [same, List.length_cons]
        constructor
        next =>
          rintro rfl
          simp at bracket
        next => omega
      next => cases later

theorem fillContentOfNode_shorter {excess : Int} {level fuel : Nat} {content behind : Text} {node : XmlNode}
    (done : fillContentOfNode heap excess level fuel content = .ok (node, some behind)) :
    behind.length < content.length := by
  cases fuel with
  | zero => cases done
  | succ fuel =>
    rw [fillContentOfNode_succ] at done
    have stepped := bind_eq_ok done
    obtain ⟨start, isStart, later⟩ := stepped
    have shorter := (readTagStart_shorter isStart).2
    split_ifs at later with simple
    next =>
      cases later
      rw [List.length_drop]
      omega
    next =>
      have attributes := bind_eq_ok later
      obtain ⟨attributes, read, rest⟩ := attributes
      dsimp only at rest
      split_ifs at rest with slash
      next =>
        cases rest
        have inContent := (readTagEnd_suffix isStart read).length_le
        have two := (List.isPrefixOf_iff_prefix.mp slash).length_le
        rw [List.length_drop]
        simp only [List.length_cons, List.length_nil] at two
        omega
      next =>
        have text := bind_eq_ok rest
        obtain ⟨text, isText, children⟩ := text
        have filled := bind_eq_ok children
        obtain ⟨children, isFilled, tail⟩ := filled
        have ended := bind_eq_ok tail
        obtain ⟨found, isEnd, made⟩ := ended
        cases made
        have inNode := ((readEndTag_suffix isEnd).trans ((fill_suffix heap excess fuel).2 isFilled)).trans
          ((readText_suffix isText).trans (List.drop_suffix 1 start.endOfNode))
        exact Nat.lt_of_le_of_lt inNode.length_le shorter

end Suffixes

section Turns

variable {heap : BehindBuffer} {excess : Int} {A B : Type}

def Halts (x : Except Stop A) : Prop := x ≠ .error .exhausted

theorem halts_ok (a : A) : Halts (.ok a : Except Stop A) := nofun

theorem halts_status (returnStatus : AnscStatus) : Halts (.error (.status returnStatus) : Except Stop A) := nofun

theorem halts_fault : Halts (.error .fault : Except Stop A) := nofun

theorem Halts.bind {x : Except Stop A} {f : A → Except Stop B} (halts : Halts x)
    (next : ∀ a, x = .ok a → Halts (f a)) : Halts (x >>= f) := by
  cases x with
  | error stop =>
    rintro ⟨⟩
    exact halts rfl
  | ok a => exact next a rfl

theorem halts_skipSpecial (n : Nat) (text : Text) : Halts (skipSpecial n text) := by
  induction n generalizing text with
  | zero => exact halts_ok text
  | succ n ih =>
    cases text with
    | nil => exact halts_fault
    | cons c rest =>
      rw [skipSpecial]
      split_ifs
      · exact ih rest
      · exact halts_ok _

theorem halts_goto (text : Text) : Halts (gotoFirstCharExcept excess text) := by
  rw [gotoFirstCharExcept]
  split_ifs
  · exact halts_ok none
  · have skipped := halts_skipSpecial (lengthAt excess text).toNat text
    cases done : skipSpecial (lengthAt excess text).toNat text with
    | error stop =>
      rw [done] at skipped
      rintro ⟨⟩
      exact skipped rfl
    | ok next => exact halts_ok (some next)

theorem halts_copyName (maximum : Nat) (invalid : AnscStatus) (name : Text) :
    Halts (copyName heap maximum invalid name) := by
  rw [copyName]
  split_ifs
  · exact halts_status _
  · exact halts_fault
  · exact halts_ok _
  · exact halts_status _

theorem halts_markup {opening closing : Text} (nonempty : closing ≠ []) (missing : AnscStatus) {fuel : Nat}
    {text : Text} (enough : text.length < fuel) : Halts (skipMarkup excess opening closing missing fuel text) := by
  induction fuel generalizing text with
  | zero => exact absurd enough (Nat.not_lt_zero _)
  | succ fuel ih =>
    rw [skipMarkup]
    split_ifs
    · cases located : strstr closing text with
      | none => exact halts_status _
      | some found =>
        apply (halts_goto _).bind
        intro skipped goto
        cases skipped with
        | none => exact halts_fault
        | some next =>
          have fewer := (gotoFirstCharExcept_suffix goto).length_le
          have shorter := (strstr_suffix located).length_le
          have stands := (strstr_starts located).length_le
          have some := List.length_pos_of_ne_nil nonempty
          rw [List.length_drop] at fewer
          exact ih (by omega)
    · exact halts_ok _

theorem halts_comments (text : Text) : Halts (skipComments excess text) :=
  halts_markup (by decide) _ (Nat.lt_succ_self _)

theorem halts_findNode (level : Nat) (content : Text) : Halts (findNode excess level content) := by
  rw [findNode]
  generalize (if (content.length : Int) + excess ≤ 0 then 0 else excess) = excess
  apply (halts_goto _).bind
  intro skipped _
  cases skipped with
  | none => exact halts_status _
  | some start =>
    dsimp only
    split_ifs
    · exact halts_status _
    · exact (halts_markup (by decide) _ (Nat.lt_succ_self _)).bind fun start _ => halts_comments start
    · exact halts_status _
    · apply (halts_goto _).bind
      intro again _
      cases again with
      | none => exact halts_fault
      | some start =>
        apply (halts_comments start).bind
        intro start _
        cases strstr ['<'] start with
        | none => exact halts_status _
        | some found => exact halts_ok found

theorem halts_tagStart (content : Text) : Halts (readTagStart heap excess content) := by
  cases content with
  | nil => exact halts_fault
  | cons c rest =>
    rw [readTagStart]
    apply (halts_goto rest).bind
    intro skipped _
    cases skipped with
    | none => exact halts_status _
    | some nodes =>
      dsimp only
      split
      · split_ifs
        · exact halts_fault
        · exact (halts_copyName _ _ _).bind fun name _ => halts_ok _
        · exact halts_fault
        · exact (halts_copyName _ _ _).bind fun name _ => halts_ok _
        · exact halts_fault
        · exact (halts_copyName _ _ _).bind fun name _ => halts_ok _
      · exact halts_status _

theorem halts_attributeValue (endOfNode endOfAttribute : Text) :
    Halts (readAttributeValue excess endOfNode endOfAttribute) := by
  rw [readAttributeValue]
  apply (halts_goto _).bind
  intro skipped _
  cases skipped with
  | none => exact halts_status _
  | some equalSign =>
    dsimp only
    split_ifs
    · exact halts_status _
    · apply (halts_goto _).bind
      intro again _
      cases again with
      | none => exact halts_status _
      | some quote =>
        dsimp only
        split_ifs
        · exact halts_status _
        · cases strstr ['"'] (quote.drop 1) with
          | none => exact halts_status _
          | some endOfAttrValue =>
            dsimp only
            split_ifs
            · exact halts_status _
            · exact halts_ok _

theorem halts_attributes {endOfNode : Text} {fuel : Nat} {start : Option Text} (positive : 0 < fuel)
    (enough : ∀ text, start = some text → text.length ≤ fuel) :
    Halts (readAttributes heap excess endOfNode fuel start) := by
  induction fuel generalizing start with
  | zero => exact absurd positive (Nat.lt_irrefl 0)
  | succ fuel ih =>
    cases start with
    | none => exact halts_status _
    | some start =>
      have room := enough start rfl
      rw [readAttributes]
      split_ifs
      · exact halts_ok _
      · cases wantedChar : gotoFirstWantedChar excess wanted start with
        | none => exact halts_status _
        | some endOfAttribute =>
          have within := (gotoFirstWantedChar_suffix wantedChar).length_le
          dsimp only
          split_ifs with early stuck
          · exact halts_status _
          · exact halts_status _
          · apply (halts_copyName _ _ _).bind
            intro name _
            apply (halts_attributeValue _ _).bind
            rintro ⟨value, behind⟩ isValue
            have quoted := (readAttributeValue_behind isValue).2
            apply (halts_goto _).bind
            intro next goto
            split_ifs
            · exact halts_status _
            · refine (ih (by omega) ?_).bind fun read _ => halts_ok _
              rintro text rfl
              have fewer : text.length ≤ behind.length := (gotoFirstCharExcept_suffix goto).length_le
              omega

theorem halts_tagEnd (start : TagStart) : Halts (readTagEnd heap excess start) := by
  rw [readTagEnd]
  split_ifs with attributes
  · apply (halts_goto _).bind
    intro next goto
    apply halts_attributes (by omega)
    rintro text rfl
    exact (gotoFirstCharExcept_suffix goto).length_le
  · exact halts_ok _

theorem halts_text (behindTag : Text) : Halts (readText excess behindTag) := by
  rw [readText]
  apply (halts_goto _).bind
  intro skipped _
  cases skipped with
  | none => exact halts_status _
  | some startOfText =>
    dsimp only
    split
    · exact halts_fault
    · split
      · exact halts_fault
      · exact halts_ok _

theorem halts_endTag (name nodes : Text) : Halts (readEndTag excess name nodes) := by
  rw [readEndTag]
  split_ifs
  · exact halts_status _
  · apply (halts_goto _).bind
    intro skipped _
    cases skipped with
    | none => exact halts_fault
    | some tagEnd =>
      dsimp only
      split_ifs
      · exact halts_status _
      · exact halts_goto _

theorem halts_fillContentOfNode {heap : BehindBuffer} {excess : Int} {level fuel : Nat} {content : Text}
    (children : ∀ nodes : Text, nodes.length + 1 < content.length →
      Halts (fillChildren heap excess level fuel (some nodes))) :
    Halts (fillContentOfNode heap excess level (fuel + 1) content) := by
  rw [fillContentOfNode_succ]
  apply (halts_tagStart content).bind
  intro start isStart
  have ⟨nonempty, shorter⟩ := readTagStart_shorter isStart
  split_ifs
  · exact halts_ok _
  · apply (halts_tagEnd start).bind
    rintro ⟨attributes, tagEnd⟩ _
    dsimp only
    split_ifs
    · exact halts_ok _
    · apply (halts_text _).bind
      rintro ⟨stringData, nodes⟩ isText
      have behind := (readText_suffix isText).length_le
      have some := List.length_pos_of_ne_nil nonempty
      rw [List.length_drop] at behind
      apply (children nodes (by omega)).bind
      rintro ⟨children, last⟩ _
      exact (halts_endTag _ _).bind fun behind _ => halts_ok _

theorem halts_fillChildren {heap : BehindBuffer} {excess : Int} {level fuel : Nat} {nodes : Text}
    (child : ∀ found : Text, found ≠ [] → found.length ≤ nodes.length →
      Halts (fillContentOfNode heap excess (level + 1) fuel found))
    (others : ∀ next : Option Text, (∀ text, next = some text → text.length < nodes.length) →
      Halts (fillChildren heap excess level fuel next)) :
    Halts (fillChildren heap excess level (fuel + 1) (some nodes)) := by
  rw [fillChildren]
  split_ifs
  · exact halts_ok _
  · apply (halts_findNode _ _).bind
    intro found located
    have within := (findNode_suffix located).length_le
    split_ifs
    · exact halts_ok _
    · apply (child found (findNode_nonempty located) within).bind
      rintro ⟨node, behind⟩ filled
      cases behind with
      | none => exact halts_fault
      | some behind =>
        have shorter := fillContentOfNode_shorter filled
        apply (halts_goto _).bind
        intro next goto
        refine (others next ?_).bind fun filled _ => halts_ok _
        rintro text rfl
        have fewer := (gotoFirstCharExcept_suffix goto).length_le
        omega

theorem halts_fill (heap : BehindBuffer) (excess : Int) (fuel : Nat) :
    (∀ (level : Nat) (content : Text), 0 < fuel → content.length ≤ fuel →
      Halts (fillContentOfNode heap excess level fuel content)) ∧
    (∀ (level : Nat) (nodes : Option Text), (∀ text, nodes = some text → text.length < fuel) →
      Halts (fillChildren heap excess level fuel nodes)) := by
  induction fuel with
  | zero =>
    constructor
    · intro level content positive _
      exact absurd positive (Nat.lt_irrefl 0)
    · intro level nodes room
      cases nodes with
      | none => exact halts_status _
      | some nodes => exact absurd (room nodes rfl) (Nat.not_lt_zero _)
  | succ fuel ih =>
    constructor
    · intro level content _ room
      apply halts_fillContentOfNode
      intro nodes shorter
      exact ih.2 level (some nodes) (by rintro _ ⟨⟩; omega)
    · intro level nodes room
      cases nodes with
      | none => exact halts_status _
      | some nodes =>
        have turns := room nodes rfl
        apply halts_fillChildren
        · intro found nonempty within
          have some := List.length_pos_of_ne_nil nonempty
          exact ih.1 (level + 1) found (by omega) (by omega)
        · intro next fewer
          refine ih.2 level next fun text same => ?_
          have shorter := fewer text same
          omega

end Turns

end CcspCommon.AnscXmlDomParser
