import CcspCommon.AnscXmlDomParser.NodeDecode
import CcspCommon.AnscXmlDomParser.Places
import CcspCommon.AnscXmlDomParser.Suffixes

set_option autoImplicit false

namespace CcspCommon.AnscXmlDomParser

open CcspCommon.Shared

section Following

inductive Alike {A B : Type} (same : A → B → Prop) : Except Stop A → Except Stop B → Prop
  | ok {a : A} {b : B} (corresponds : same a b) : Alike same (.ok a) (.ok b)
  | rejected (first second : AnscStatus) : Alike same (.error (.status first)) (.error (.status second))
  | fault : Alike same (.error .fault) (.error .fault)
  | exhausted : Alike same (.error .exhausted) (.error .exhausted)

def Place.NameFits : Place → Prop
  | .nodeName name => name.length ≠ maximumNodeName
  | .attributeName name => name.length ≠ maximumAttributeName
  | _ => True

instance : DecidablePred Place.NameFits := fun place => by
  cases place <;> unfold Place.NameFits <;> infer_instance

variable {A B C D : Type} {same : A → B → Prop} {later : C → D → Prop} {spoiled : Prop}

/-- A step of the node parser against the recorded step of the string parser. Behind a name that filled
its buffer the node parser may refuse what the string parser still takes. -/
def Follows (same : A → B → Prop) (spoiled : Prop) (run : Parsing B) (x : Except Stop A) : Prop :=
  ((spoiled ∨ ¬ AllVisited Place.NameFits run) ∧ ∃ returnStatus, x = .error (.status returnStatus)) ∨
    Alike same x (ending run)

theorem alike_self (x : Except Stop A) : Alike Eq x x := by
  rcases x with (status | - | -) | a
  · exact .rejected status status
  · exact .fault
  · exact .exhausted
  · exact .ok rfl

theorem Follows.mono {other : Prop} {run : Parsing B} {x : Except Stop A} (follows : Follows same spoiled run x)
    (implies : spoiled → other) : Follows same other run x :=
  follows.imp_left fun refused => ⟨refused.1.imp_left implies, refused.2⟩

theorem Follows.bind {run : Parsing B} {x : Except Stop A} {next : B → Parsing D} {f : A → Except Stop C}
    (follows : Follows same spoiled run x)
    (goesOn : ∀ a b, ending run = .ok b → same a b →
      Follows later (spoiled ∨ ¬ AllVisited Place.NameFits run) (next b) (f a)) :
    Follows later spoiled (run >>= next) (x >>= f) := by
  rcases follows with ⟨wide, returnStatus, rfl⟩ | alike
  · refine .inl ⟨wide.imp_right fun misfit all => misfit ?_, returnStatus, rfl⟩
    exact ((allVisited_bind run next).mp all).1
  · cases ended : ending run with
    | error stop =>
      have whole : ending (run >>= next) = .error stop := by
        rw [ending_bind, ended]
        rfl
      rw [ended] at alike
      rw [Follows, whole]
      cases alike with
      | rejected first second => exact .inr (.rejected first second)
      | fault => exact .inr .fault
      | exhausted => exact .inr .exhausted
    | ok b =>
      rw [ended] at alike
      cases alike with
      | ok corresponds =>
        have rest := goesOn _ b ended corresponds
        rw [Follows, ending_bind, ended, allVisited_bind_ok ended]
        rcases rest with ⟨wide, stopped⟩ | alike
        · refine .inl ⟨?_, stopped⟩
          tauto
        · exact .inr alike

theorem follows_settled {x : Except Stop A} {y : Except Stop B} (alike : Alike same x y) :
    Follows same spoiled (settled y) x := .inr alike

theorem follows_rejected (first second : AnscStatus) :
    Follows same spoiled (throw (.status second)) (.error (.status first)) := .inr (.rejected first second)

theorem follows_pure {a : A} {b : B} (corresponds : same a b) : Follows same spoiled (pure b) (.ok a) :=
  .inr (.ok corresponds)

theorem follows_step {y : Except Stop B} {next : B → Parsing D} {f : B → Except Stop C}
    (goesOn : ∀ b, y = .ok b → Follows later spoiled (next b) (f b)) :
    Follows later spoiled (settled y >>= next) (y >>= f) := by
  apply (follows_settled (alike_self y)).bind
  rintro b _ isOk rfl
  exact (goesOn b isOk).mono .inl

theorem follows_visit (place : Place) (harmless : place.NameFits) {run : Parsing B} {x : Except Stop A}
    (follows : Follows same spoiled run x) : Follows same spoiled (visit place >>= fun _ => run) x := by
  rw [Follows, ending_visit_bind, allVisited_visit_bind, and_iff_right harmless]
  exact follows

end Following

section Stored

def XmlAttribute.stored (attr : XmlAttribute) : XmlAttribute :=
  { attr with name := strcpyName maximumAttributeName attr.name }

def XmlTag.stored (tag : XmlTag) : XmlTag :=
  { tag with
    name := strcpyName maximumNodeName tag.name
    attributes := tag.attributes.map XmlAttribute.stored }

def XmlNodes.stored : XmlNodes → XmlNodes
  | nil => nil
  | cons tag children next => cons tag.stored children.stored next.stored

def XmlNode.stored (node : XmlNode) : XmlNode := ⟨node.tag.stored, node.children.stored⟩

def TagStart.stored (start : TagStart) : TagStart := { start with name := strcpyName maximumNodeName start.name }

end Stored

section Steps

variable (heap : BehindBuffer) (excess : Int) {spoiled : Prop}

theorem follows_name (place : Text → Place) (maximum : Nat) (invalid : AnscStatus) (name : Text) :
    Follows (fun kept taken => kept = strcpyName maximum taken) spoiled
      (followName heap place maximum invalid name) (decodeName heap maximum invalid name) := by
  right
  rw [ending_followName, copyName, decodeName]
  split_ifs
  · exact .rejected _ _
  · exact .fault
  · exact .ok rfl
  · exact .rejected _ _

theorem follows_tagStart (content : Text) :
    Follows (fun kept taken => kept = taken.stored) spoiled (followTagStart heap excess content)
      (decodeTagStart heap excess content) := by
  unfold followTagStart decodeTagStart
  apply follows_visit (.node content) trivial
  cases content with
  | nil => exact .inr .fault
  | cons c rest =>
    apply follows_step
    intro nodes _
    cases nodes with
    | none => exact follows_rejected _ _
    | some nodes =>
      dsimp only
      cases strstr ['>'] nodes with
      | none => exact follows_rejected _ _
      | some endOfNode =>
        cases gotoFirstWantedChar excess special nodes with
        | none => exact follows_rejected _ _
        | some firstSpace =>
          change Follows _ _ (if nodes.length < (endOfName (c :: rest) endOfNode firstSpace).length then _ else _)
            (if nodes.length < (endOfName (c :: rest) endOfNode firstSpace).length then _ else _)
          by_cases outside : nodes.length < (endOfName (c :: rest) endOfNode firstSpace).length
          · rw [if_pos outside, if_pos outside]
            exact .inr .fault
          · rw [if_neg outside, if_neg outside]
            apply (follows_name heap _ _ _ _).bind
            rintro _ name _ rfl
            exact follows_pure rfl

theorem follows_attributes (endOfNode : Text) (fuel : Nat) (start : Option Text) :
    Follows (fun kept taken => kept = (taken.1.map XmlAttribute.stored, taken.2)) spoiled
      (followAttributes heap excess endOfNode fuel start) (decodeAttributes heap excess endOfNode fuel start) := by
  induction fuel generalizing start spoiled with
  | zero =>
    cases start with
    | none => exact .inr (.rejected _ _)
    | some start => exact .inr .exhausted
  | succ fuel ih =>
    cases start with
    | none => exact .inr (.rejected _ _)
    | some start =>
      rw [followAttributes, decodeAttributes, atTagEnd]
      split_ifs
      · exact follows_pure rfl
      · cases gotoFirstWantedChar excess wanted start with
        | none => exact follows_rejected _ _
        | some endOfAttribute =>
          dsimp only
          split_ifs
          · exact follows_rejected _ _
          · exact follows_rejected _ _
          · apply (follows_name heap _ _ _ _).bind
            rintro _ name _ rfl
            apply follows_step
            rintro ⟨value, behind⟩ _
            apply follows_step
            intro next _
            rw [atTagEnd, Bool.or_comm (isStringStartWith excess behind ['>'])]
            dsimp only
            split_ifs
            · exact follows_rejected _ _
            · apply (ih next).bind
              rintro _ taken _ rfl
              exact follows_pure rfl

theorem follows_tagEnd (start : TagStart) :
    Follows (fun kept taken => kept = (taken.1.map XmlAttribute.stored, taken.2)) spoiled
      (followTagRest heap excess start.endOfNodeName start.endOfNode) (decodeTagEnd heap excess start.stored) := by
  rw [followTagRest, decodeTagEnd]
  change Follows _ _ _ (if start.endOfNode.length < start.endOfNodeName.length then _ else _)
  split_ifs
  · apply follows_step
    intro next _
    exact follows_attributes heap excess _ _ next
  · exact follows_pure rfl

theorem follows_text (behindTag : Text) :
    Follows Eq spoiled (followText excess behindTag) (decodeText excess behindTag) := by
  apply follows_visit (.behindStartTag behindTag) trivial
  apply follows_settled
  rw [decodeText, readText]
  cases gotoFirstCharExcept excess behindTag with
  | error stop => exact alike_self _
  | ok skipped =>
    cases skipped with
    | none => exact .rejected _ _
    | some startOfText => exact alike_self _

theorem follows_node (level : Nat) (content : Text) :
    Follows Eq spoiled (followNode excess level content) (findNode excess level content) := by
  right
  rw [ending_followNode]
  exact alike_self _

theorem follows_endTag (level : Nat) (name nodes : Text) (misfit : strcpyName maximumNodeName name ≠ name → spoiled) :
    Follows Eq spoiled (followEndTag excess level name nodes)
      (decodeEndTag excess (strcpyName maximumNodeName name) nodes) := by
  by_cases fits : name.length < maximumNodeName
  · right
    rw [ending_followEndTag, strcpyName, if_pos fits]
    exact alike_self _
  · left
    have lost : strcpyName maximumNodeName name = [] := if_neg fits
    have nonempty : name ≠ [] := by
      rintro rfl
      exact fits (by decide)
    refine ⟨.inl (misfit (lost ▸ nonempty.symm)), .xmlMissedEndTag, ?_⟩
    rw [lost, decodeEndTag, if_pos (by simp [isStringStartWith])]

end Steps

section Kept

variable (heap : BehindBuffer) (excess : Int)

theorem fits_markup (opening closing : Text) (missing : AnscStatus) (fuel : Nat) (text : Text) :
    AllVisited Place.NameFits (followMarkup excess opening closing missing fuel text) := by
  induction fuel generalizing text with
  | zero => exact allVisited_throw _
  | succ fuel ih =>
    rw [followMarkup]
    split_ifs
    · cases strstr closing text with
      | none => exact allVisited_throw _
      | some found =>
        rw [allVisited_visit_bind, allVisited_bind]
        refine ⟨trivial, allVisited_settled _, ?_⟩
        intro next _
        cases next with
        | none => exact allVisited_throw _
        | some next => exact ih next
    · exact allVisited_pure _

theorem fits_node (level : Nat) (content : Text) : AllVisited Place.NameFits (followNode excess level content) := by
  rw [followNode]
  generalize (if (content.length : Int) + excess ≤ 0 then 0 else excess) = excess
  rw [allVisited_bind]
  refine ⟨allVisited_settled _, ?_⟩
  intro skipped _
  cases skipped with
  | none => exact allVisited_throw _
  | some start =>
    dsimp only
    split_ifs
    · exact allVisited_throw _
    · rw [allVisited_bind]
      exact ⟨fits_markup _ _ _ _ _ _, fun start _ => fits_markup _ _ _ _ _ start⟩
    · exact allVisited_throw _
    · rw [allVisited_bind]
      refine ⟨allVisited_settled _, ?_⟩
      intro again _
      cases again with
      | none => exact allVisited_throw _
      | some start =>
        rw [allVisited_bind]
        refine ⟨fits_markup _ _ _ _ _ _, ?_⟩
        intro start _
        cases strstr ['<'] start with
        | none => exact allVisited_throw _
        | some found => exact allVisited_pure _

theorem fits_endTag (level : Nat) (name nodes : Text) :
    AllVisited Place.NameFits (followEndTag excess level name nodes) := by
  rw [followEndTag]
  split_ifs
  · exact allVisited_throw _
  · rw [allVisited_visit_bind, allVisited_bind]
    refine ⟨trivial, allVisited_settled _, ?_⟩
    intro skipped _
    cases skipped with
    | none => exact allVisited_throw _
    | some tagEnd =>
      dsimp only
      split_ifs
      · exact allVisited_throw _
      · rw [allVisited_visit_bind]
        exact ⟨trivial, allVisited_settled _⟩

theorem fits_text (behindTag : Text) : AllVisited Place.NameFits (followText excess behindTag) := by
  rw [followText, allVisited_visit_bind]
  exact ⟨trivial, allVisited_settled _⟩

theorem fits_name {maximum : Nat} (place : Text → Place) {invalid : AnscStatus} {name taken : Text}
    (place_fits : (place name).NameFits ↔ name.length ≠ maximum)
    (done : ending (followName heap place maximum invalid name) = .ok taken) :
    AllVisited Place.NameFits (followName heap place maximum invalid name) ↔ strcpyName maximum taken = taken := by
  rw [ending_followName, copyName] at done
  split_ifs at done with long filled valid
  cases done
  have nonempty : name ≠ [] := by
    rintro rfl
    simp [isValidName] at valid
  rw [followName, allVisited_visit_bind, and_iff_left (allVisited_settled _), place_fits, strcpyName]
  split_ifs with fits
  · exact iff_of_true fits.ne rfl
  · exact iff_of_false (by omega) nonempty.symm

theorem fits_tagStart {content : Text} {start : TagStart}
    (done : ending (followTagStart heap excess content) = .ok start) :
    AllVisited Place.NameFits (followTagStart heap excess content) ↔
      strcpyName maximumNodeName start.name = start.name := by
  unfold followTagStart at done ⊢
  rw [ending_visit_bind] at done
  rw [allVisited_visit_bind, and_iff_right (by trivial)]
  cases content with
  | nil => cases done
  | cons c rest =>
    dsimp only at done ⊢
    obtain ⟨skipped, -, later, places⟩ := steps_of_ending_bind (P := Place.NameFits) done
    rw [places, and_iff_right (allVisited_settled _)]
    cases skipped with
    | none => cases later
    | some nodes =>
      dsimp only at later ⊢
      cases located : strstr ['>'] nodes with
      | none => simp [located] at later
      | some endOfNode =>
        cases spaced : gotoFirstWantedChar excess special nodes with
        | none => simp [located, spaced] at later
        | some firstSpace =>
          simp only [located, spaced] at later
          dsimp only
          split_ifs at later ⊢ with outside
          · cases later
          · obtain ⟨name, taken, made, places⟩ := steps_of_ending_bind (P := Place.NameFits) later
            rw [places, and_iff_left (allVisited_pure _)]
            cases made
            exact fits_name heap .nodeName Iff.rfl taken

theorem fits_attributes {endOfNode last : Text} {fuel : Nat} {start : Option Text} {attributes : List XmlAttribute}
    (done : ending (followAttributes heap excess endOfNode fuel start) = .ok (attributes, last)) :
    AllVisited Place.NameFits (followAttributes heap excess endOfNode fuel start) ↔
      attributes.map XmlAttribute.stored = attributes := by
  induction fuel generalizing start attributes last with
  | zero => cases start <;> cases done
  | succ fuel ih =>
    cases start with
    | none => cases done
    | some start =>
      rw [followAttributes] at done ⊢
      split_ifs at done ⊢
      · cases done
        exact iff_of_true (allVisited_pure _) rfl
      · cases wantedChar : gotoFirstWantedChar excess wanted start with
        | none => simp [wantedChar] at done
        | some endOfAttribute =>
          simp only [wantedChar] at done
          dsimp only
          split_ifs at done ⊢
          · cases done
          · cases done
          · obtain ⟨name, isName, later, places⟩ := steps_of_ending_bind (P := Place.NameFits) done
            rw [places, fits_name heap .attributeName Iff.rfl isName]
            obtain ⟨⟨value, behind⟩, -, later, places⟩ := steps_of_ending_bind (P := Place.NameFits) later
            rw [places, and_iff_right (allVisited_settled _)]
            obtain ⟨next, -, later, places⟩ := steps_of_ending_bind (P := Place.NameFits) later
            rw [places, and_iff_right (allVisited_settled _)]
            split_ifs at later ⊢
            · cases later
            · obtain ⟨⟨others, rest⟩, read, made, places⟩ := steps_of_ending_bind (P := Place.NameFits) later
              rw [places, and_iff_left (allVisited_pure _), ih read]
              cases made
              simp [XmlAttribute.stored]

theorem fits_tagEnd {endOfNodeName endOfNode last : Text} {attributes : List XmlAttribute}
    (done : ending (followTagRest heap excess endOfNodeName endOfNode) = .ok (attributes, last)) :
    AllVisited Place.NameFits (followTagRest heap excess endOfNodeName endOfNode) ↔
      attributes.map XmlAttribute.stored = attributes := by
  rw [followTagRest] at done ⊢
  split_ifs at done ⊢
  · obtain ⟨next, -, read, places⟩ := steps_of_ending_bind (P := Place.NameFits) done
    rw [places, and_iff_right (allVisited_settled _)]
    exact fits_attributes heap excess read
  · cases done
    exact iff_of_true (allVisited_pure _) rfl

theorem stored_eq_iff (name : Text) (attributes : List XmlAttribute) (stringData : Option Text) (children : XmlNodes) :
    (⟨⟨name, attributes, stringData⟩, children⟩ : XmlNode).stored = ⟨⟨name, attributes, stringData⟩, children⟩ ↔
      strcpyName maximumNodeName name = name ∧ attributes.map XmlAttribute.stored = attributes ∧
        children.stored = children := by
  simp [XmlNode.stored, XmlTag.stored, and_assoc]

/-- Both loops by induction on the fuel that they share: in a string that is taken, the names that fit are
those of a tree that is stored as it is. -/
theorem fits_followContent {level fuel : Nat} {content : Text} {node : XmlNode} {behind : Option Text}
    (inner : ∀ {nodes : Text} {children : XmlNodes} {last : Text},
      ending (followChildren heap excess level fuel (some nodes)) = .ok (children, last) →
      (AllVisited Place.NameFits (followChildren heap excess level fuel (some nodes)) ↔ children.stored = children))
    (done : ending (followContent heap excess level (fuel + 1) content) = .ok (node, behind)) :
    AllVisited Place.NameFits (followContent heap excess level (fuel + 1) content) ↔ node.stored = node := by
  rw [followContent] at done ⊢
  obtain ⟨start, isStart, later, places⟩ := steps_of_ending_bind (P := Place.NameFits) done
  rw [places, fits_tagStart heap excess isStart]
  dsimp only at later ⊢
  split_ifs at later ⊢
  · cases later
    rw [stored_eq_iff, and_iff_left (allVisited_pure _)]
    simp [XmlNodes.stored]
  · obtain ⟨⟨attributes, tagEnd⟩, read, later, places⟩ := steps_of_ending_bind (P := Place.NameFits) later
    rw [places, fits_tagEnd heap excess read]
    dsimp only at later ⊢
    split_ifs at later ⊢
    · cases later
      rw [stored_eq_iff, and_iff_left (allVisited_pure _)]
      simp [XmlNodes.stored]
    · obtain ⟨⟨stringData, nodes⟩, -, later, places⟩ := steps_of_ending_bind (P := Place.NameFits) later
      rw [places, and_iff_right (fits_text excess _)]
      obtain ⟨⟨children, last⟩, filled, later, places⟩ := steps_of_ending_bind (P := Place.NameFits) later
      rw [places, inner filled]
      obtain ⟨behind, -, made, places⟩ := steps_of_ending_bind (P := Place.NameFits) later
      rw [places, and_iff_right (fits_endTag excess _ _ _), and_iff_left (allVisited_pure _)]
      cases made
      exact (stored_eq_iff _ _ _ _).symm

theorem fits_followChildren {level fuel : Nat} {nodes last : Text} {children : XmlNodes}
    (child : ∀ {content : Text} {node : XmlNode} {behind : Option Text},
      ending (followContent heap excess (level + 1) fuel content) = .ok (node, behind) →
      (AllVisited Place.NameFits (followContent heap excess (level + 1) fuel content) ↔ node.stored = node))
    (others : ∀ {next : Option Text} {rest : XmlNodes} {last : Text},
      ending (followChildren heap excess level fuel next) = .ok (rest, last) →
      (AllVisited Place.NameFits (followChildren heap excess level fuel next) ↔ rest.stored = rest))
    (done : ending (followChildren heap excess level (fuel + 1) (some nodes)) = .ok (children, last)) :
    AllVisited Place.NameFits (followChildren heap excess level (fuel + 1) (some nodes)) ↔
      children.stored = children := by
  rw [followChildren] at done ⊢
  split_ifs at done ⊢
  · cases done
    exact iff_of_true (allVisited_pure _) rfl
  · obtain ⟨found, -, later, places⟩ := steps_of_ending_bind (P := Place.NameFits) done
    rw [places, and_iff_right (fits_node excess _ _)]
    split_ifs at later ⊢
    · cases later
      exact iff_of_true (allVisited_pure _) rfl
    · obtain ⟨⟨node, behind⟩, filled, later, places⟩ := steps_of_ending_bind (P := Place.NameFits) later
      rw [places, child filled]
      cases behind with
      | none => cases later
      | some behind =>
        dsimp only at later ⊢
        obtain ⟨next, -, later, places⟩ := steps_of_ending_bind (P := Place.NameFits) later
        rw [places, and_iff_right (allVisited_settled _)]
        obtain ⟨⟨rest, end'⟩, filledRest, made, places⟩ := steps_of_ending_bind (P := Place.NameFits) later
        rw [places, others filledRest, and_iff_left (allVisited_pure _)]
        cases made
        obtain ⟨⟨name, attributes, stringData⟩, inside⟩ := node
        rw [stored_eq_iff]
        simp [XmlNodes.stored, XmlTag.stored, and_assoc]

theorem fits_iff_stored (fuel : Nat) :
    (∀ {level : Nat} {content : Text} {node : XmlNode} {behind : Option Text},
      ending (followContent heap excess level fuel content) = .ok (node, behind) →
      (AllVisited Place.NameFits (followContent heap excess level fuel content) ↔ node.stored = node)) ∧
    (∀ {level : Nat} {nodes : Option Text} {children : XmlNodes} {last : Text},
      ending (followChildren heap excess level fuel nodes) = .ok (children, last) →
      (AllVisited Place.NameFits (followChildren heap excess level fuel nodes) ↔ children.stored = children)) := by
  induction fuel with
  | zero =>
    constructor
    · intro level content node behind done
      cases done
    · intro level nodes children last done
      cases nodes <;> cases done
  | succ fuel ih =>
    constructor
    · intro level content node behind done
      exact fits_followContent heap excess ih.2 done
    · intro level nodes children last done
      cases nodes with
      | none => cases done
      | some nodes => exact fits_followChildren heap excess ih.1 ih.2 done

end Kept

section Agreement

variable {word stop : Nat}

structure Placed (word stop : Nat) (excess : Int) (text : Text) : Prop where
  nonnull : text.length < stop
  inside : stop < 2 * word
  low : -(word : Int) ≤ excess
  high : text.length + excess < word

theorem Placed.suffix {excess : Int} {text rest : Text} (placed : Placed word stop excess text)
    (behind : rest <:+ text) : Placed word stop excess rest := by
  obtain ⟨nonnull, inside, low, high⟩ := placed
  have shorter := behind.length_le
  exact ⟨by omega, inside, low, by omega⟩

theorem pointerAt_back {excess size : Int} {text : Text} (placed : Placed word stop excess text)
    {behind : Option Text} (suffix : ∀ rest, behind = some rest → rest <:+ text) :
    pointerAt stop text (ulong word (address stop (some text) +
      (size - ulong word (size - (address stop behind - address stop (some text)))))) = behind := by
  obtain ⟨nonnull, inside, -, -⟩ := placed
  cases behind with
  | none =>
    have back : (ulong word (address stop (some text) +
        (size - ulong word (size - (0 - address stop (some text))))) : Int) = 0 :=
      ulong_back (address stop (some text)) size (by omega) (by omega)
    rw [pointerAt, if_pos (by rw [address]; omega)]
  | some rest =>
    have ends := suffix rest rfl
    have shorter := ends.length_le
    have back : (ulong word (address stop (some text) +
        (size - ulong word (size - (address stop (some rest) - address stop (some text))))) : Int) =
        address stop (some rest) :=
      ulong_back (address stop (some text)) size (by rw [address]; omega) (by rw [address]; omega)
    have distance : (address stop (some rest) - address stop (some text)).toNat = text.length - rest.length := by
      simp only [address]
      omega
    have nonzero : address stop (some rest) ≠ 0 := by
      rw [address]
      omega
    rw [pointerAt, if_neg (by omega), back, distance, ← List.suffix_iff_eq_drop.mp ends]

theorem follows_nodeDecode {heap : BehindBuffer} {level fuel : Nat} {buffer : Text} {ulSize : Nat}
    (children : ∀ nodes, nodes <:+ buffer →
      Follows (fun kept taken => kept = (taken.1.stored, taken.2)) False
        (followChildren heap (long word ulSize - buffer.length) level fuel (some nodes))
        (decodeChildren heap word stop (long word ulSize - buffer.length) level fuel (some nodes))) :
    Follows (fun decoded filled => decoded.1 = filled.1.stored ∧
        decoded.2 = ulong word (ulSize - (address stop filled.2 - address stop (some buffer)))) False
      (followContent heap (long word ulSize - buffer.length) level (fuel + 1) buffer)
      (nodeDecode heap word stop level (fuel + 1) buffer ulSize) := by
  rw [nodeDecode, followContent]
  apply (follows_tagStart heap _ buffer).bind
  rintro _ start isStart rfl
  have misfit : strcpyName maximumNodeName start.name ≠ start.name →
      ¬ AllVisited Place.NameFits (followTagStart heap (long word ulSize - buffer.length) buffer) :=
    fun lost fits => lost ((fits_tagStart heap _ isStart).mp fits)
  rw [ending_followTagStart] at isStart
  obtain ⟨endOfNode, -⟩ := readTagStart_suffix isStart
  change Follows _ _ _ (if (start.endOfNodeName.length = start.endOfNode.length + 1 &&
    start.endOfNodeName.head? = some '/') = true then _ else _)
  dsimp only
  split_ifs
  · exact follows_pure ⟨rfl, rfl⟩
  · apply (follows_tagEnd heap _ start).bind
    rintro _ ⟨attributes, tagEnd⟩ _ rfl
    dsimp only
    split_ifs
    · exact follows_pure ⟨rfl, rfl⟩
    · apply (follows_text _ _).bind
      rintro _ ⟨stringData, nodes⟩ isText rfl
      have inNodes := (readText_suffix isText).trans ((List.drop_suffix _ _).trans endOfNode)
      apply ((children nodes inNodes).mono False.elim).bind
      rintro _ ⟨children, last⟩ _ rfl
      apply (follows_endTag _ level start.name last _).bind
      · rintro _ behind _ rfl
        exact follows_pure ⟨rfl, rfl⟩
      · intro lost
        have := misfit lost
        tauto

theorem follows_decodeChildren {heap : BehindBuffer} {excess : Int} {level fuel : Nat} {nodes : Text}
    (placed : Placed word stop excess nodes)
    (child : ∀ (found : Text) (ulSize : Nat), Placed word stop (long word ulSize - found.length) found →
      Follows (fun decoded filled => decoded.1 = filled.1.stored ∧
          decoded.2 = ulong word (ulSize - (address stop filled.2 - address stop (some found)))) False
        (followContent heap (long word ulSize - found.length) (level + 1) fuel found)
        (nodeDecode heap word stop (level + 1) fuel found ulSize))
    (others : ∀ next, (∀ text, next = some text → text <:+ nodes) →
      Follows (fun kept taken => kept = (taken.1.stored, taken.2)) False
        (followChildren heap excess level fuel next) (decodeChildren heap word stop excess level fuel next)) :
    Follows (fun kept taken => kept = (taken.1.stored, taken.2)) False
      (followChildren heap excess level (fuel + 1) (some nodes))
      (decodeChildren heap word stop excess level (fuel + 1) (some nodes)) := by
  rw [decodeChildren, followChildren]
  split_ifs
  · exact follows_pure rfl
  · apply (follows_node excess _ nodes).bind
    rintro found _ located rfl
    rw [ending_followNode] at located
    have inNodes := findNode_suffix located
    have foundPlaced := placed.suffix inNodes
    split_ifs
    · exact follows_pure rfl
    · -- the child gets the length that is left from its tag on
      have length : long word (ulong word (found.length + excess)) - found.length = excess := by
        obtain ⟨-, -, low, high⟩ := foundPlaced
        rw [long_ulong (by omega) high]
        omega
      have inner := child found (ulong word (found.length + excess))
      rw [length] at inner
      apply ((inner foundPlaced).mono False.elim).bind
      rintro ⟨node, ulBufLen⟩ ⟨taken, behind⟩ filled ⟨rfl, rfl⟩
      rw [(ending_follow heap excess fuel).1] at filled
      have suffix : ∀ rest, behind = some rest → rest <:+ found := by
        rintro rest rfl
        exact (fill_suffix heap excess fuel).1 filled
      dsimp only
      rw [pointerAt_back foundPlaced suffix]
      cases behind with
      | none => exact .inr .fault
      | some behind =>
        apply follows_step
        intro next goto
        have inNext : ∀ text, next = some text → text <:+ nodes := by
          rintro text rfl
          exact ((gotoFirstCharExcept_suffix goto).trans (suffix behind rfl)).trans inNodes
        apply ((others next inNext).mono False.elim).bind
        rintro _ ⟨rest, last⟩ _ rfl
        exact follows_pure rfl

/-- Both loops by induction on the fuel that they share. -/
theorem decode_follows (heap : BehindBuffer) (fuel : Nat) :
    (∀ (level : Nat) (buffer : Text) (ulSize : Nat),
      Placed word stop (long word ulSize - buffer.length) buffer →
      Follows (fun decoded filled => decoded.1 = filled.1.stored ∧
          decoded.2 = ulong word (ulSize - (address stop filled.2 - address stop (some buffer)))) False
        (followContent heap (long word ulSize - buffer.length) level fuel buffer)
        (nodeDecode heap word stop level fuel buffer ulSize)) ∧
    (∀ (excess : Int) (level : Nat) (nodes : Option Text), (∀ text, nodes = some text → Placed word stop excess text) →
      Follows (fun kept taken => kept = (taken.1.stored, taken.2)) False
        (followChildren heap excess level fuel nodes) (decodeChildren heap word stop excess level fuel nodes)) := by
  induction fuel with
  | zero =>
    constructor
    · intro level buffer ulSize _
      exact .inr .exhausted
    · intro excess level nodes _
      cases nodes with
      | none => exact .inr (.rejected _ _)
      | some nodes => exact .inr .exhausted
  | succ fuel ih =>
    constructor
    · intro level buffer ulSize placed
      apply follows_nodeDecode
      intro nodes inBuffer
      exact ih.2 _ level (some nodes) (by rintro _ ⟨⟩; exact placed.suffix inBuffer)
    · intro excess level nodes placed
      cases nodes with
      | none => exact .inr (.rejected _ _)
      | some nodes =>
        apply follows_decodeChildren (placed nodes rfl)
        · intro found ulSize foundPlaced
          exact ih.1 (level + 1) found ulSize foundPlaced
        · intro next inNodes
          exact ih.2 excess level next fun text same => (placed nodes rfl).suffix (inNodes text same)

/-- Both accept, with results that correspond, or neither does. -/
inductive Agree {A B : Type} (same : A → B → Prop) : Except Stop A → Except Stop B → Prop
  | ok {a : A} {b : B} (corresponds : same a b) : Agree same (.ok a) (.ok b)
  | neither {first second : Stop} (halts : first ≠ .exhausted) (halts' : second ≠ .exhausted) :
      Agree same (.error first) (.error second)

def SameNode (word stop ulSize : Nat) (buffer : Text) (decoded : XmlNode × Nat)
    (filled : XmlNode × Option Text) : Prop :=
  decoded.1 = filled.1 ∧
    decoded.2 = ulong word (ulSize - (address stop filled.2 - address stop (some buffer)))

def NamesFit (run : Parsing (XmlNode × Option Text)) : Prop :=
  ∀ taken, ending run = .ok taken → AllVisited Place.NameFits run

theorem nodeDecode_agrees_iff (heap : BehindBuffer) (level fuel : Nat) (buffer : Text) (ulSize : Nat)
    (enough : buffer.length < fuel)
    (placed : Placed word stop (long word ulSize - buffer.length) buffer) :
    Agree (SameNode word stop ulSize buffer) (nodeDecode heap word stop level fuel buffer ulSize)
        (fillContentOfNode heap (long word ulSize - buffer.length) level fuel buffer) ↔
      NamesFit (followContent heap (long word ulSize - buffer.length) level fuel buffer) := by
  have follows := (decode_follows heap fuel).1 level buffer ulSize placed
  have halts := (halts_fill heap (long word ulSize - buffer.length) fuel).1 level buffer (by omega) (by omega)
  rw [Follows, (ending_follow heap _ fuel).1, false_or] at follows
  rw [NamesFit]
  rw [(ending_follow heap _ fuel).1]
  cases filled : fillContentOfNode heap (long word ulSize - buffer.length) level fuel buffer with
  | error failed =>
    rw [filled] at follows
    rw [Halts, filled] at halts
    refine iff_of_true ?_ nofun
    rcases follows with ⟨-, returnStatus, refused⟩ | alike
    · rw [refused]
      exact .neither nofun (by rintro rfl; exact halts rfl)
    · generalize nodeDecode heap word stop level fuel buffer ulSize = decoded at alike
      cases alike with
      | rejected first second => exact .neither nofun nofun
      | fault => exact .neither nofun nofun
      | exhausted => exact absurd rfl halts
  | ok taken =>
    obtain ⟨node, behind⟩ := taken
    have fits := (fits_iff_stored heap _ fuel).1 (((ending_follow heap _ fuel).1 level buffer).trans filled)
    rw [filled] at follows
    rcases follows with ⟨misfit, returnStatus, refused⟩ | alike
    · rw [refused]
      refine iff_of_false ?_ fun all => misfit (all _ rfl)
      rintro ⟨⟩
    · generalize nodeDecode heap word stop level fuel buffer ulSize = decoded at alike
      cases alike with
      | ok corresponds =>
        rw [fits]
        constructor
        · rintro ⟨⟨same, -⟩⟩ _ _
          exact corresponds.1.symm.trans same
        · intro all
          exact .ok ⟨corresponds.1.trans (all _ rfl), corresponds.2⟩

def nestedNode : Text := "<a b=\"c\">x<d/></a>\n".toList

theorem nodeDecode_agrees_on_nestedNode :
    nodeDecode .terminator 2147483648 4096 0 20 nestedNode 19 =
        .ok (⟨⟨['a'], [⟨['b'], ['c']⟩], some ['x']⟩, .cons ⟨['d'], [], none⟩ .nil .nil⟩, 0) ∧
      Agree (SameNode 2147483648 4096 19 nestedNode) (nodeDecode .terminator 2147483648 4096 0 20 nestedNode 19)
        (fillContentOfNode .terminator (long 2147483648 19 - nestedNode.length) 0 20 nestedNode) := by
  constructor
  · decide +kernel
  · apply (nodeDecode_agrees_iff .terminator 0 20 nestedNode 19 (by decide +kernel) ?_).mpr
    · exact fun _ _ => by decide +kernel
    · exact ⟨by decide +kernel, by decide +kernel, by decide +kernel, by decide +kernel⟩

def fullName : Text := List.replicate maximumNodeName 'n'

def fullNode : Text := '<' :: fullName ++ ['/', '>']

theorem fullNode_differs :
    ¬ Agree (SameNode 2147483648 4096 51 fullNode) (nodeDecode .terminator 2147483648 4096 0 52 fullNode 51)
      (fillContentOfNode .terminator (long 2147483648 51 - fullNode.length) 0 52 fullNode) := by
  have decoded : nodeDecode .terminator 2147483648 4096 0 52 fullNode 51 = .ok (⟨⟨[], [], none⟩, .nil⟩, 0) := by
    decide +kernel
  have filled : fillContentOfNode .terminator (long 2147483648 51 - fullNode.length) 0 52 fullNode =
      .ok (⟨⟨fullName, [], none⟩, .nil⟩, some []) := by
    decide +kernel
  rw [decoded, filled]
  rintro ⟨same, -⟩
  revert same
  decide +kernel

end Agreement

end CcspCommon.AnscXmlDomParser
