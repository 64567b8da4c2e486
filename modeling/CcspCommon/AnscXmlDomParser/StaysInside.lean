import CcspCommon.AnscXmlDomParser.Places
import CcspCommon.AnscXmlDomParser.Scanning
import CcspCommon.AnscXmlDomParser.Suffixes

set_option autoImplicit false

namespace CcspCommon.AnscXmlDomParser

open CcspCommon.Shared

section Skipping

theorem lengthAt_le (text : Text) : lengthAt 0 text ≤ text.length := by
  rw [lengthAt, Int.add_zero]
  change (if text.length < 2147483648 then (text.length : Int) else (text.length : Int).bmod 4294967296) ≤ _
  rw [Int.bmod_def]
  split_ifs <;> omega

theorem lengthAt_emod (text : Text) : lengthAt 0 text % 4294967296 = text.length % 4294967296 := by
  rw [lengthAt, Int.add_zero]
  change (if text.length < 2147483648 then (text.length : Int) else (text.length : Int).bmod 4294967296) % _ = _
  rw [Int.bmod_def]
  split_ifs <;> omega

theorem lengthAt_eq_zero (text : Text) : lengthAt 0 text = 0 ↔ text.length % 4294967296 = 0 := by
  rw [lengthAt, Int.add_zero]
  change (if text.length < 2147483648 then (text.length : Int) else (text.length : Int).bmod 4294967296) = 0 ↔ _
  rw [Int.bmod_def]
  split_ifs <;> omega

def Settled (text : Text) : Prop :=
  gotoFirstCharExcept 0 text = .ok none ∨ gotoFirstCharExcept 0 text = .ok (some text)

theorem settled_of_head {c : Char} (plain : special c = false) (rest : Text) : Settled (c :: rest) := by
  by_cases empty : lengthAt 0 (c :: rest) = 0
  next => exact .inl (if_pos empty)
  next =>
    apply Or.inr
    rw [gotoFirstCharExcept, if_neg empty]
    cases (lengthAt 0 (c :: rest)).toNat with
    | zero => rfl
    | succ n => simp [skipSpecial, plain, Except.map]

theorem skipSpecial_some {n : Nat} {text : Text} (inside : n ≤ text.length) :
    ∃ rest, skipSpecial n text = .ok rest ∧ (Settled rest ∨ rest = text.drop n) := by
  induction n generalizing text with
  | zero => exact ⟨text, rfl, .inr rfl⟩
  | succ n ih =>
    cases text with
    | nil => simp at inside
    | cons c rest =>
      rw [skipSpecial]
      cases plain : special c with
      | true => simpa using ih (Nat.le_of_succ_le_succ inside)
      | false => exact ⟨c :: rest, rfl, .inl (settled_of_head plain rest)⟩

theorem gotoFirstCharExcept_some {text : Text} (left : lengthAt 0 text ≠ 0) :
    ∃ rest, gotoFirstCharExcept 0 text = .ok (some rest) ∧ Settled rest := by
  have bound := lengthAt_le text
  have modulo := lengthAt_emod text
  have inside : (lengthAt 0 text).toNat ≤ text.length := by omega
  have skipped := skipSpecial_some inside
  obtain ⟨rest, found, settled⟩ := skipped
  have goto : gotoFirstCharExcept 0 text = .ok (some rest) := by
    rw [gotoFirstCharExcept, if_neg left, found]
    rfl
  use rest
  constructor
  next => exact goto
  next =>
    cases settled with
    | inl settled => exact settled
    | inr behind =>
      by_cases negative : lengthAt 0 text < 0
      next =>
        -- nothing was skipped at all
        have same : rest = text := by simpa [Int.toNat_of_nonpos negative.le] using behind
        rw [same] at goto ⊢
        exact .inr goto
      next =>
        -- the whole length was skipped
        apply Or.inl
        apply if_pos
        rw [lengthAt_eq_zero, behind, List.length_drop]
        omega

theorem gotoFirstCharExcept_none {text : Text} : gotoFirstCharExcept 0 text = .ok none ↔ lengthAt 0 text = 0 := by
  constructor
  next =>
    intro nothing
    by_contra left
    have found := gotoFirstCharExcept_some left
    obtain ⟨rest, goto, -⟩ := found
    simp [goto] at nothing
  next =>
    intro empty
    exact if_pos empty

theorem gotoFirstCharExcept_settled {text next : Text} (goto : gotoFirstCharExcept 0 text = .ok (some next)) :
    Settled next := by
  have left : lengthAt 0 text ≠ 0 := by
    intro empty
    simp [gotoFirstCharExcept_none.mpr empty] at goto
  have found := gotoFirstCharExcept_some left
  obtain ⟨rest, same, settled⟩ := found
  rw [goto] at same
  cases same
  exact settled

theorem gotoFirstCharExcept_ok (text : Text) : ∃ next, gotoFirstCharExcept 0 text = .ok next := by
  by_cases left : lengthAt 0 text = 0
  next => exact ⟨none, gotoFirstCharExcept_none.mpr left⟩
  next =>
    have found := gotoFirstCharExcept_some left
    obtain ⟨rest, goto, -⟩ := found
    exact ⟨some rest, goto⟩

theorem strstr_settled {c : Char} (plain : special c = false) {text found : Text}
    (located : strstr [c] text = some found) : Settled found := by
  have starts := strstr_starts located
  obtain ⟨rest, rfl⟩ := starts
  exact settled_of_head plain rest

end Skipping

section Markup

def Place.Within (xmlString : Text) : Place → Prop
  | .behindMarkup text | .node text | .behindStartTag text | .behindEndName text | .behindEndTag _ text =>
    text <:+ xmlString
  | .nodeName name | .attributeName name => name <:+: xmlString

def Place.Safe : Place → Prop
  | .behindMarkup text => lengthAt 0 text ≠ 0
  | .node content => content ≠ [] ∧ (['/', '>'].isPrefixOf content → lengthAt 0 (content.drop 1) ≤ 0)
  | .nodeName name => name.length ≠ maximumNodeName
  | .attributeName name => name.length ≠ maximumAttributeName
  | .behindStartTag text => lengthAt 0 text = 0 ∨ '<' ∈ text
  | .behindEndName text => lengthAt 0 text ≠ 0
  | .behindEndTag level text => level = 0 ∨ lengthAt 0 text ≠ 0

instance (place : Place) : Decidable place.Safe :=
  match place with
  | .behindMarkup text => inferInstanceAs (Decidable (lengthAt 0 text ≠ 0))
  | .node content =>
    inferInstanceAs (Decidable (content ≠ [] ∧
      (['/', '>'].isPrefixOf content → lengthAt 0 (content.drop 1) ≤ 0)))
  | .nodeName name => inferInstanceAs (Decidable (name.length ≠ maximumNodeName))
  | .attributeName name => inferInstanceAs (Decidable (name.length ≠ maximumAttributeName))
  | .behindStartTag text => inferInstanceAs (Decidable (lengthAt 0 text = 0 ∨ '<' ∈ text))
  | .behindEndName text => inferInstanceAs (Decidable (lengthAt 0 text ≠ 0))
  | .behindEndTag level text => inferInstanceAs (Decidable (level = 0 ∨ lengthAt 0 text ≠ 0))

abbrev Guarded (xmlString : Text) {α : Type} (computation : Parsing α) (bad : α → Prop) : Prop :=
  Guards (Place.Within xmlString) Place.Safe Stop.fault Stop.exhausted computation bad

abbrev Clean {α : Type} : α → Prop := fun _ => False

variable {xmlString : Text}

theorem guarded_status {α : Type} {bad : α → Prop} (returnStatus : AnscStatus) :
    Guarded xmlString (throw (.status returnStatus)) bad := by
  apply Guards.throw
  next => simp
  next => simp

theorem guarded_bind {α γ : Type} {first : Parsing α} {next : α → Parsing γ} {bad : γ → Prop}
    (start : Guarded xmlString first Clean)
    (goes : ∀ value, ending first = .ok value → Guarded xmlString (next value) bad) :
    Guarded xmlString (first >>= next) bad := by
  apply Guards.bind
  next => decide
  next => exact start
  next => exact fun _ _ => False.elim
  next => exact fun value done _ => goes value done

theorem guarded_check {α : Type} {place : Place} {rest : Parsing α} {bad : α → Prop}
    (inside : place.Within xmlString)
    (stuck : ¬ place.Safe → AllVisited (Place.Within xmlString) rest ∧
      (ending rest = .error .fault ∨ ∃ value, ending rest = .ok value ∧ bad value))
    (goes : place.Safe → Guarded xmlString rest bad) : Guarded xmlString (do visit place; rest) bad := by
  apply Guards.check
  next => decide
  next => exact inside
  next => exact stuck
  next => exact goes

theorem guarded_markup {opening closing : Text} (missing : AnscStatus) (nonempty : closing ≠ []) {fuel : Nat}
    {text : Text} (inside : text <:+ xmlString) (enough : text.length < fuel) :
    Guarded xmlString (followMarkup 0 opening closing missing fuel text) Clean := by
  induction fuel generalizing text with
  | zero => exact absurd enough (Nat.not_lt_zero _)
  | succ fuel ih =>
    rw [followMarkup]
    split_ifs
    next =>
      cases located : strstr closing text with
      | none => exact guarded_status missing
      | some found =>
        have starts := (strstr_starts located).length_le
        have positive := List.length_pos_of_ne_nil nonempty
        have behind := (List.drop_suffix closing.length found).trans (strstr_suffix located)
        have shorter := (strstr_suffix located).length_le
        apply guarded_check
        next => exact behind.trans inside
        next =>
          intro empty
          rw [gotoFirstCharExcept_none.mpr (not_not.mp empty), settled_ok_bind]
          exact ⟨allVisited_throw _, .inl rfl⟩
        next =>
          intro left
          have skipped := gotoFirstCharExcept_some left
          obtain ⟨next, goto, -⟩ := skipped
          have later := gotoFirstCharExcept_suffix goto
          have fewer := later.length_le
          rw [List.length_drop] at fewer
          rw [goto, settled_ok_bind]
          exact ih (later.trans (behind.trans inside)) (by omega)
    next => exact Guards.pure id

theorem guarded_headers {text : Text} (inside : text <:+ xmlString) : Guarded xmlString (followHeaders 0 text) Clean :=
  guarded_markup _ (by decide) inside (Nat.lt_succ_self _)

theorem guarded_comments {text : Text} (inside : text <:+ xmlString) :
    Guarded xmlString (followComments 0 text) Clean :=
  guarded_markup _ (by decide) inside (Nat.lt_succ_self _)

theorem guarded_node {ulLayerLevel : Nat} {content : Text} (inside : content <:+ xmlString)
    (settled : ulLayerLevel = 0 ∨ Settled content) :
    Guarded xmlString (followNode 0 ulLayerLevel content) Clean := by
  simp only [followNode, ite_self]
  have skipped := gotoFirstCharExcept_ok content
  obtain ⟨next, goto⟩ := skipped
  rw [goto, settled_ok_bind]
  cases next with
  | none => exact guarded_status _
  | some start =>
    have behind := (gotoFirstCharExcept_suffix goto).trans inside
    dsimp only
    split_ifs with root
    next => exact guarded_status _
    next =>
      apply guarded_bind
      next => exact guarded_headers behind
      next =>
        intro next found
        rw [ending_followHeaders] at found
        exact guarded_comments ((skipMarkup_suffix found).trans behind)
    next => exact guarded_status _
    next =>
      -- the pointer stands there already
      have again : gotoFirstCharExcept 0 start = .ok (some start) := by
        have same : gotoFirstCharExcept 0 content = .ok (some content) := by
          cases settled.resolve_left root with
          | inl nothing => simp [goto] at nothing
          | inr stands => exact stands
        rw [same] at goto
        cases goto
        exact same
      rw [again, settled_ok_bind]
      apply guarded_bind
      next => exact guarded_comments behind
      next =>
        intro next _
        cases strstr ['<'] next with
        | none => exact guarded_status _
        | some found => exact Guards.pure id

end Markup

section Tags

variable {xmlString : Text}

theorem guarded_name {place : Text → Place} {maximum : Nat} (invalid : AnscStatus) {name : Text}
    (inside : (place name).Within xmlString) (relies : (place name).Safe ↔ name.length ≠ maximum) :
    Guarded xmlString (followName .unreadable place maximum invalid name) Clean := by
  apply guarded_check
  next => exact inside
  next =>
    intro fills
    rw [relies, not_not] at fills
    have faulty : copyName .unreadable maximum invalid name = .error .fault := by simp [copyName, fills]
    exact ⟨allVisited_settled _, .inl faulty⟩
  next =>
    intro fits
    rw [relies] at fits
    apply Guards.settled
    next => simp only [copyName, fits, false_and, if_false]; split_ifs <;> simp
    next => simp only [copyName, fits, false_and, if_false]; split_ifs <;> simp
    next => exact fun _ _ => id

theorem skipSpecial_segment {n : Nat} {text next : Text} (done : skipSpecial n text = .ok next) :
    ∃ segment, text = segment ++ next ∧ ∀ c ∈ segment, special c = true := by
  induction n generalizing text with
  | zero =>
    cases done
    exact ⟨[], rfl, by simp⟩
  | succ n ih =>
    cases text with
    | nil => cases done
    | cons c rest =>
      rw [skipSpecial] at done
      split_ifs at done with blank
      next =>
        have skipped := ih done
        obtain ⟨segment, whole, blanks⟩ := skipped
        use c :: segment
        constructor
        next => rw [whole, List.cons_append]
        next => simpa [blank] using blanks
      next =>
        cases done
        exact ⟨[], rfl, by simp⟩

theorem gotoFirstCharExcept_segment {text next : Text} (goto : gotoFirstCharExcept 0 text = .ok (some next)) :
    ∃ segment, text = segment ++ next ∧ ∀ c ∈ segment, special c = true := by
  rw [gotoFirstCharExcept] at goto
  split_ifs at goto
  next => cases goto
  next =>
    cases skipped : skipSpecial (lengthAt 0 text).toNat text with
    | error stop =>
      rw [skipped] at goto
      cases goto
    | ok found =>
      rw [skipped] at goto
      cases goto
      exact skipSpecial_segment skipped

theorem strstr_here {c : Char} (rest : Text) : strstr [c] (c :: rest) = some (c :: rest) := by
  simp [strstr]

theorem gotoFirstCharExcept_before {c : Char} {rest next : Text}
    (goto : gotoFirstCharExcept 0 rest = .ok (some next)) :
    ∃ front d, c :: rest = front ++ d :: next ∧ (rest = next ∧ d = c ∨ special d = true) := by
  have segment := gotoFirstCharExcept_segment goto
  obtain ⟨segment, whole, blanks⟩ := segment
  cases List.eq_nil_or_concat segment with
  | inl empty =>
    rw [empty, List.nil_append] at whole
    exact ⟨[], c, by rw [whole, List.nil_append], .inl ⟨whole, rfl⟩⟩
  | inr last =>
    obtain ⟨front, d, rfl⟩ := last
    exact ⟨c :: front, d, by simp [whole], .inr (blanks d (by simp))⟩

theorem drop_before (front : Text) (d : Char) (nodes : Text) :
    (front ++ d :: nodes).drop ((front ++ d :: nodes).length - nodes.length - 1) = d :: nodes := by
  have position : (front ++ d :: nodes).length - nodes.length - 1 = front.length := by
    rw [List.length_append, List.length_cons]
    omega
  rw [position, List.drop_left]

theorem endOfName_outside {c : Char} {rest nodes endOfNode firstSpace : Text}
    (goto : gotoFirstCharExcept 0 rest = .ok (some nodes)) (located : strstr ['>'] nodes = some endOfNode)
    (spaced : gotoFirstWantedChar 0 special nodes = some firstSpace)
    (outside : nodes.length < (endOfName (c :: rest) endOfNode firstSpace).length) :
    ['/', '>'] <+: c :: rest ∧ 0 < lengthAt 0 rest := by
  have before := gotoFirstCharExcept_before (c := c) goto
  obtain ⟨front, d, whole, place⟩ := before
  have inNodes := strstr_suffix located
  have bracketLength := inNodes.length_le
  have spaceLength := (gotoFirstWantedChar_suffix spaced).length_le
  have total : rest.length + 1 = front.length + (nodes.length + 1) := by
    simpa using congrArg List.length whole
  rw [endOfName] at outside
  by_cases shorter : firstSpace.length < endOfNode.length
  next =>
    rw [if_pos shorter] at outside
    dsimp only at outside
    split_ifs at outside with slash
    next =>
      rw [List.length_drop, List.length_cons] at outside
      have same : endOfNode = nodes := inNodes.eq_of_length (by omega)
      rw [same, whole, drop_before, List.head?_cons, Option.some.injEq] at slash
      have bracket := strstr_starts located
      rw [same] at bracket shorter
      cases place with
      | inl here =>
        obtain ⟨rfl, rfl⟩ := here
        constructor
        next =>
          rw [slash]
          exact (List.prefix_cons_inj '/').mpr bracket
        next =>
          by_contra low
          -- nothing is searched where the length is negative
          rw [gotoFirstWantedChar, Int.toNat_of_nonpos (Int.not_lt.mp low)] at spaced
          split_ifs at spaced
          cases spaced
          exact Nat.lt_irrefl _ shorter
      | inr blank =>
        rw [slash] at blank
        exact absurd blank (by decide)
    next => omega
  next =>
    rw [if_neg shorter] at outside
    omega

theorem endOfName_emptyTag {more : Text} (left : 0 < lengthAt 0 ('>' :: more)) :
    ∃ firstSpace, gotoFirstWantedChar 0 special ('>' :: more) = some firstSpace ∧
      (endOfName ('/' :: '>' :: more) ('>' :: more) firstSpace).length = more.length + 2 := by
  have some : lengthAt 0 ('>' :: more) ≠ 0 := left.ne'
  have stepped : (lengthAt 0 ('>' :: more)).toNat = ((lengthAt 0 ('>' :: more)).toNat - 1) + 1 := by omega
  use skipUnwanted special ((lengthAt 0 ('>' :: more)).toNat - 1) more
  constructor
  next =>
    rw [gotoFirstWantedChar, if_neg some, stepped]
    rfl
  next =>
    have shorter := (skipUnwanted_suffix special ((lengthAt 0 ('>' :: more)).toNat - 1) more).length_le
    rw [endOfName, if_pos (by rw [List.length_cons]; omega)]
    simp

theorem followTagStart_emptyTag {more : Text} (left : 0 < lengthAt 0 ('>' :: more)) :
    followTagStart .unreadable 0 ('/' :: '>' :: more) = (do
      visit (.node ('/' :: '>' :: more))
      throw .fault) := by
  have settled := settled_of_head (c := '>') (by decide) more
  have goto : gotoFirstCharExcept 0 ('>' :: more) = .ok (some ('>' :: more)) :=
    settled.resolve_left fun nothing => left.ne' (gotoFirstCharExcept_none.mp nothing)
  have spaces := endOfName_emptyTag left
  obtain ⟨firstSpace, spaced, size⟩ := spaces
  have outside : ('>' :: more).length < (endOfName ('/' :: '>' :: more) ('>' :: more) firstSpace).length := by
    rw [size, List.length_cons]
    exact Nat.lt_succ_self _
  simp only [followTagStart, goto, settled_ok_bind, strstr_here, spaced, if_pos outside]

theorem guarded_fault {α : Type} {place : Place} {bad : α → Prop} (inside : place.Within xmlString)
    (wrong : ¬ place.Safe) : Guarded xmlString (do visit place; throw .fault) bad := by
  apply guarded_check
  next => exact inside
  next => exact fun _ => ⟨allVisited_throw _, .inl rfl⟩
  next => exact fun safe => absurd safe wrong

theorem guarded_tagStart {content : Text} (inside : content <:+ xmlString) :
    Guarded xmlString (followTagStart .unreadable 0 content) Clean := by
  by_cases safe : (Place.node content).Safe
  next =>
    cases content with
    | nil => exact absurd rfl safe.1
    | cons c rest =>
      have skipped := gotoFirstCharExcept_ok rest
      obtain ⟨next, goto⟩ := skipped
      apply guarded_check
      next => exact inside
      next => exact fun wrong => absurd safe wrong
      next =>
        intro _
        dsimp only
        rw [goto, settled_ok_bind]
        cases next with
        | none => exact guarded_status _
        | some nodes =>
          have inNodes := ((gotoFirstCharExcept_suffix goto).trans (List.suffix_cons c rest)).trans inside
          dsimp only
          cases located : strstr ['>'] nodes with
          | none => exact guarded_status _
          | some endOfNode =>
            cases spaced : gotoFirstWantedChar 0 special nodes with
            | none => exact guarded_status _
            | some firstSpace =>
              dsimp only
              split_ifs with outside
              next =>
                have emptyTag := endOfName_outside goto located spaced outside
                have low := safe.2 (List.isPrefixOf_iff_prefix.mpr emptyTag.1)
                exact absurd emptyTag.2 (Int.not_lt.mpr low)
              next =>
                apply guarded_bind
                next =>
                  apply guarded_name
                  next => exact (List.take_prefix _ nodes).isInfix.trans inNodes.isInfix
                  next => exact Iff.rfl
                next => exact fun _ _ => Guards.pure id
  next =>
    cases content with
    | nil =>
      apply guarded_fault
      next => exact inside
      next => exact safe
    | cons c rest =>
      have emptyTag : '/' = c ∧ ['>'] <+: rest ∧ 0 < lengthAt 0 rest := by
        simpa [Place.Safe, List.isPrefixOf_iff_prefix] using safe
      obtain ⟨rfl, starts, left⟩ := emptyTag
      obtain ⟨more, rfl⟩ := starts
      rw [List.singleton_append] at left inside safe ⊢
      rw [followTagStart_emptyTag left]
      apply guarded_fault
      next => exact inside
      next => exact safe

end Tags

section Attributes

inductive Ends {A : Type} (post : A → Prop) : Except Stop A → Prop
  | ok {a : A} (holds : post a) : Ends post (.ok a)
  | rejected (returnStatus : AnscStatus) : Ends post (.error (.status returnStatus))

variable {A B : Type} {post : A → Prop} {later : B → Prop} {x : Except Stop A} {xmlString : Text}

theorem Ends.bind {f : A → Except Stop B} (ends : Ends post x) (next : ∀ a, x = .ok a → post a → Ends later (f a)) :
    Ends later (x >>= f) := by
  cases ends with
  | ok holds => exact next _ rfl holds
  | rejected returnStatus => exact .rejected returnStatus

theorem Ends.guarded (ends : Ends post x) : Guarded xmlString (settled x) Clean := by
  cases ends with
  | ok holds => exact Guards.pure id
  | rejected returnStatus => exact guarded_status returnStatus

theorem ends_goto (text : Text) : Ends (fun _ => True) (gotoFirstCharExcept 0 text) := by
  have skipped := gotoFirstCharExcept_ok text
  obtain ⟨next, goto⟩ := skipped
  rw [goto]
  exact .ok trivial

theorem ends_readAttributeValue (endOfNode endOfAttribute : Text) :
    Ends (fun value => value.2.length < endOfAttribute.length) (readAttributeValue 0 endOfNode endOfAttribute) := by
  rw [readAttributeValue]
  apply (ends_goto endOfAttribute).bind
  intro next goto _
  cases next with
  | none => exact .rejected _
  | some equalSign =>
    dsimp only
    split_ifs
    next => exact .rejected _
    next =>
      apply (ends_goto _).bind
      intro next again _
      cases next with
      | none => exact .rejected _
      | some quote =>
        dsimp only
        split_ifs
        next => exact .rejected _
        next =>
          cases located : strstr ['"'] (quote.drop 1) with
          | none => exact .rejected _
          | some endOfAttrValue =>
            dsimp only
            split_ifs
            next => exact .rejected _
            next =>
              apply Ends.ok
              have quoted := (strstr_starts located).length_le
              have shorter := ((strstr_suffix located).trans ((List.drop_suffix _ _).trans
                ((gotoFirstCharExcept_suffix again).trans ((List.drop_suffix _ _).trans
                  (gotoFirstCharExcept_suffix goto))))).length_le
              rw [List.length_singleton] at quoted
              rw [List.length_drop]
              omega

structure Turns (xmlString : Text) (fuel : Nat) (text : Text) : Prop where
  inside : text <:+ xmlString
  enough : text.length ≤ fuel
  positive : 0 < fuel

theorem guarded_attributes {endOfNode : Text} {fuel : Nat} {start : Option Text}
    (turns : ∀ text, start = some text → Turns xmlString fuel text) :
    Guarded xmlString (followAttributes .unreadable 0 endOfNode fuel start) Clean := by
  induction fuel generalizing start with
  | zero =>
    cases start with
    | none => exact guarded_status _
    | some start => exact absurd (turns start rfl).positive (Nat.lt_irrefl 0)
  | succ fuel ih =>
    cases start with
    | none => exact guarded_status _
    | some start =>
      have turn := turns start rfl
      rw [followAttributes]
      split_ifs
      next => exact Guards.pure id
      next =>
        cases located : gotoFirstWantedChar 0 wanted start with
        | none => exact guarded_status _
        | some endOfAttribute =>
          dsimp only
          split_ifs with ended same
          next => exact guarded_status _
          next => exact guarded_status _
          next =>
            have inStart := gotoFirstWantedChar_suffix located
            have shorter := inStart.length_le
            apply guarded_bind
            next =>
              apply guarded_name
              next => exact (List.take_prefix _ start).isInfix.trans turn.inside.isInfix
              next => exact Iff.rfl
            next =>
              intro name _
              have ends := ends_readAttributeValue endOfNode endOfAttribute
              apply guarded_bind
              next => exact ends.guarded
              next =>
                intro value read
                have behind := (readAttributeValue_behind read).1
                rw [ending_settled] at read
                rw [read] at ends
                cases ends with
                | ok fewer =>
                  apply guarded_bind
                  next => exact (ends_goto value.2).guarded
                  next =>
                    intro next goto
                    split_ifs
                    next => exact guarded_status _
                    next =>
                      apply Guards.map
                      next =>
                        apply ih
                        intro text isNext
                        rw [isNext] at goto
                        have later := gotoFirstCharExcept_suffix goto
                        have most := later.length_le
                        have bound := turn.enough
                        constructor
                        next => exact later.trans (behind.trans (inStart.trans turn.inside))
                        next => omega
                        next => omega
                      next => exact fun _ => Iff.rfl

theorem guarded_tagRest {endOfNodeName endOfNode : Text} (inside : endOfNodeName <:+ xmlString) :
    Guarded xmlString (followTagRest .unreadable 0 endOfNodeName endOfNode) Clean := by
  rw [followTagRest]
  split_ifs with longer
  next =>
    apply guarded_bind
    next => exact (ends_goto endOfNodeName).guarded
    next =>
      intro next goto
      apply guarded_attributes
      intro text isNext
      rw [isNext] at goto
      have later := gotoFirstCharExcept_suffix goto
      exact ⟨later.trans inside, later.length_le, by omega⟩
  next => exact Guards.pure id

end Attributes

section Texts

variable {xmlString : Text}

theorem strstr_mem {c : Char} {text : Text} (member : c ∈ text) : ∃ found, strstr [c] text = some found := by
  apply Option.ne_none_iff_exists'.mp
  rw [Ne, strstr_eq_none (List.cons_ne_nil c []), not_not]
  exact (List.singleton_infix_iff c text).mpr member

theorem strstr_not_mem {c : Char} {text : Text} (absent : c ∉ text) : strstr [c] text = none := by
  rw [strstr_eq_none (List.cons_ne_nil c [])]
  exact fun found => absent ((List.singleton_infix_iff c text).mp found)

theorem gotoFirstCharExcept_mem {c : Char} (plain : special c = false) {text next : Text}
    (goto : gotoFirstCharExcept 0 text = .ok (some next)) : c ∈ next ↔ c ∈ text := by
  have segment := gotoFirstCharExcept_segment goto
  obtain ⟨segment, rfl, blanks⟩ := segment
  have absent : c ∉ segment := by
    intro member
    have blank := blanks c member
    rw [plain] at blank
    exact Bool.false_ne_true blank
  simp [absent]

theorem getStringEndExcept_le (text : Text) (endPosition : Nat) :
    getStringEndExcept text endPosition ≤ endPosition := by
  have shorter := (List.rdropWhile_prefix special (l := text.take (int32 endPosition).toNat)).length_le
  have bound : int32 endPosition ≤ endPosition := by
    have same := lengthAt_le (List.replicate endPosition ' ')
    simpa [lengthAt] using same
  rw [List.length_take] at shorter
  rw [getStringEndExcept]
  omega

theorem strstr_behind_text {text nextTag : Text} {size : Nat} (located : strstr ['<'] text = some nextTag)
    (before : size ≤ text.length - nextTag.length) : ∃ nodes, strstr ['<'] (text.drop size) = some nodes := by
  apply strstr_mem
  have inText := strstr_suffix located
  have bracket := (strstr_starts located).subset (List.mem_singleton.mpr rfl)
  have split : text.drop (text.length - nextTag.length) = nextTag := (List.suffix_iff_eq_drop.mp inText).symm
  have later := List.drop_suffix_drop_left text before
  rw [split] at later
  exact later.subset bracket

theorem guarded_text {behindTag : Text} (inside : behindTag <:+ xmlString) :
    Guarded xmlString (followText 0 behindTag) Clean := by
  rw [followText]
  apply guarded_check
  next => exact inside
  next =>
    intro wrong
    have absent : lengthAt 0 behindTag ≠ 0 ∧ '<' ∉ behindTag := by simpa [Place.Safe] using wrong
    have skipped := gotoFirstCharExcept_some absent.1
    obtain ⟨startOfText, goto, -⟩ := skipped
    have missing : '<' ∉ startOfText := by
      rw [gotoFirstCharExcept_mem (by decide) goto]
      exact absent.2
    have faulty : readText 0 behindTag = .error .fault := by
      rw [readText, goto]
      simp [bind, Except.bind, strstr_not_mem missing]
    exact ⟨allVisited_settled _, .inl faulty⟩
  next =>
    intro safe
    have ends : Ends (fun _ => True) (readText 0 behindTag) := by
      rw [readText]
      apply (ends_goto behindTag).bind
      intro next goto _
      cases next with
      | none => exact .rejected _
      | some startOfText =>
        have left : lengthAt 0 behindTag ≠ 0 := by
          intro empty
          simp [gotoFirstCharExcept_none.mpr empty] at goto
        have present : '<' ∈ startOfText := by
          rw [gotoFirstCharExcept_mem (by decide) goto]
          exact safe.resolve_left left
        have found := strstr_mem present
        obtain ⟨nextTag, located⟩ := found
        have next := strstr_behind_text located (getStringEndExcept_le startOfText _)
        obtain ⟨nodes, again⟩ := next
        simp only [located, again]
        exact .ok trivial
    exact ends.guarded

theorem guarded_endTag {level : Nat} {name nodes : Text} (inside : nodes <:+ xmlString) :
    Guarded xmlString (followEndTag 0 level name nodes) fun behind => level ≠ 0 ∧ behind = none := by
  have named : (nodes.drop 2).drop name.length <:+ xmlString :=
    (List.drop_suffix _ _).trans ((List.drop_suffix _ _).trans inside)
  rw [followEndTag]
  split_ifs
  next => exact guarded_status _
  next =>
    apply guarded_check
    next => exact named
    next =>
      intro empty
      rw [gotoFirstCharExcept_none.mpr (not_not.mp empty), settled_ok_bind]
      exact ⟨allVisited_throw _, .inl rfl⟩
    next =>
      intro left
      have skipped := gotoFirstCharExcept_some left
      obtain ⟨tagEnd, goto, -⟩ := skipped
      rw [goto, settled_ok_bind]
      dsimp only
      split_ifs
      next => exact guarded_status _
      next =>
        have behind := (List.drop_suffix 1 tagEnd).trans ((gotoFirstCharExcept_suffix goto).trans named)
        apply guarded_check
        next => exact behind
        next =>
          intro empty
          have inner : level ≠ 0 ∧ lengthAt 0 (tagEnd.drop 1) = 0 := by simpa [Place.Safe] using empty
          rw [gotoFirstCharExcept_none.mpr inner.2]
          exact ⟨allVisited_settled _, .inr ⟨none, rfl, inner.1, rfl⟩⟩
        next =>
          intro safe
          have skipped := gotoFirstCharExcept_ok (tagEnd.drop 1)
          obtain ⟨next, goto⟩ := skipped
          rw [goto]
          apply Guards.pure
          rintro ⟨inner, rfl⟩
          exact (safe.resolve_left inner) (gotoFirstCharExcept_none.mp goto)

end Texts

section Nodes

variable {xmlString : Text}

theorem readText_settled {behindTag : Text} {text : Option Text × Text} (done : readText 0 behindTag = .ok text) :
    Settled text.2 := by
  rw [readText] at done
  have stepped := bind_eq_ok done
  obtain ⟨start, -, later⟩ := stepped
  cases start with
  | none => cases later
  | some startOfText =>
    dsimp only at later
    split at later
    next => cases later
    next =>
      split at later
      next => cases later
      next nodes located =>
        cases later
        exact strstr_settled (by decide) located

structure Ahead (xmlString : Text) (fuel : Nat) (nodes : Text) : Prop where
  inside : nodes <:+ xmlString
  enough : nodes.length < fuel
  settled : Settled nodes

theorem guarded_content {level fuel : Nat} {content : Text} (turns : Turns xmlString (fuel + 1) content)
    (children : ∀ nodes, Ahead xmlString fuel nodes →
      Guarded xmlString (followChildren .unreadable 0 level fuel (some nodes)) Clean) :
    Guarded xmlString (followContent .unreadable 0 level (fuel + 1) content) fun node => level ≠ 0 ∧ node.2 = none := by
  rw [followContent]
  apply guarded_bind
  next => exact guarded_tagStart turns.inside
  next =>
    intro tag isStart
    rw [ending_followTagStart] at isStart
    have suffixes := readTagStart_suffix isStart
    have shorter := readTagStart_shorter isStart
    have positive := List.length_pos_of_ne_nil shorter.1
    have behindTag := (List.drop_suffix 1 tag.endOfNode).trans (suffixes.1.trans turns.inside)
    dsimp only
    split_ifs
    next =>
      apply Guards.pure
      simp
    next =>
      apply guarded_bind
      next => exact guarded_tagRest (suffixes.2.trans turns.inside)
      next =>
        intro attributes _
        split_ifs
        next =>
          apply Guards.pure
          simp
        next =>
          apply guarded_bind
          next => exact guarded_text behindTag
          next =>
            intro text isText
            rw [ending_followText] at isText
            have inText := readText_suffix isText
            have enough := turns.enough
            have nodesShorter := inText.length_le
            rw [List.length_drop] at nodesShorter
            apply guarded_bind
            next =>
              apply children
              constructor
              next => exact inText.trans behindTag
              next => omega
              next => exact readText_settled isText
            next =>
              intro filled isFilled
              rw [(ending_follow .unreadable 0 fuel).2] at isFilled
              have inNodes := (fill_suffix .unreadable 0 fuel).2 isFilled
              apply Guards.map
              next => exact guarded_endTag (inNodes.trans (inText.trans behindTag))
              next => exact fun _ => Iff.rfl

theorem guarded_children {level fuel : Nat} {nodes : Text} (here : Ahead xmlString (fuel + 1) nodes)
    (child : ∀ content, Turns xmlString fuel content →
      Guarded xmlString (followContent .unreadable 0 (level + 1) fuel content) fun node =>
        level + 1 ≠ 0 ∧ node.2 = none)
    (others : ∀ next, (∀ text, next = some text → Ahead xmlString fuel text) →
      Guarded xmlString (followChildren .unreadable 0 level fuel next) Clean) :
    Guarded xmlString (followChildren .unreadable 0 level (fuel + 1) (some nodes)) Clean := by
  rw [followChildren]
  split_ifs
  next => exact Guards.pure id
  next =>
    apply guarded_bind
    next => exact guarded_node here.inside (.inr here.settled)
    next =>
      intro found located
      rw [ending_followNode] at located
      have inNodes := findNode_suffix located
      have positive := List.length_pos_of_ne_nil (findNode_nonempty located)
      have enough := here.enough
      have most := inNodes.length_le
      split_ifs
      next => exact Guards.pure id
      next =>
        apply Guards.bind
        next => decide
        next => exact child found ⟨inNodes.trans here.inside, by omega, by omega⟩
        next =>
          -- nothing behind the end tag of the child
          intro filled _ wrong
          obtain ⟨node, behind⟩ := filled
          have nothing : behind = none := wrong.2
          rw [nothing]
        next =>
          intro filled isChild good
          obtain ⟨node, behind⟩ := filled
          cases behind with
          | none => exact absurd ⟨Nat.succ_ne_zero level, rfl⟩ good
          | some behind =>
            rw [(ending_follow .unreadable 0 fuel).1] at isChild
            have inChild := (fill_suffix .unreadable 0 fuel).1 isChild
            have fewer := fillContentOfNode_shorter isChild
            apply guarded_bind
            next => exact (ends_goto behind).guarded
            next =>
              intro next goto
              apply Guards.map
              next =>
                apply others
                intro text isNext
                rw [isNext] at goto
                have later := gotoFirstCharExcept_suffix goto
                have bound := later.length_le
                constructor
                next => exact later.trans (inChild.trans (inNodes.trans here.inside))
                next => omega
                next => exact gotoFirstCharExcept_settled goto
              next => exact fun _ => Iff.rfl

/-- Both loops by induction on the turns that they share. -/
theorem guarded_fill (fuel : Nat) :
    (∀ {level : Nat} {content : Text}, Turns xmlString fuel content →
      Guarded xmlString (followContent .unreadable 0 level fuel content) fun node => level ≠ 0 ∧ node.2 = none) ∧
    (∀ {level : Nat} {nodes : Option Text}, (∀ text, nodes = some text → Ahead xmlString fuel text) →
      Guarded xmlString (followChildren .unreadable 0 level fuel nodes) Clean) := by
  induction fuel with
  | zero =>
    constructor
    next =>
      intro level content turns
      exact absurd turns.positive (Nat.lt_irrefl 0)
    next =>
      intro level nodes ahead
      cases nodes with
      | none => exact guarded_status _
      | some nodes => exact absurd (ahead nodes rfl).enough (Nat.not_lt_zero _)
  | succ fuel ih =>
    constructor
    next =>
      intro level content turns
      apply guarded_content turns
      intro nodes ahead
      apply ih.2
      rintro _ ⟨⟩
      exact ahead
    next =>
      intro level nodes ahead
      cases nodes with
      | none => exact guarded_status _
      | some nodes => exact guarded_children (ahead nodes rfl) (fun _ => ih.1) fun _ => ih.2

theorem guarded_string (xmlString : Text) : Guarded xmlString (followString .unreadable xmlString) Clean := by
  rw [followString]
  apply guarded_bind
  next => exact guarded_node List.suffix_rfl (.inl rfl)
  next =>
    intro content located
    rw [ending_followNode] at located
    have inside := findNode_suffix located
    have some : xmlString ≠ [] := by
      rintro rfl
      have nothing : findNode 0 0 [] = .error (.status .failure) := by decide
      rw [nothing] at located
      cases located
    have turns : Turns xmlString xmlString.length content :=
      ⟨inside, inside.length_le, List.length_pos_of_ne_nil some⟩
    have filled : Guarded xmlString (followContent .unreadable 0 0 xmlString.length content) fun node =>
      0 ≠ 0 ∧ node.2 = none :=
      (guarded_fill xmlString.length).1 turns
    simpa using filled

def StaysInside (xmlString : Text) : Prop :=
  AllVisited (Place.Within xmlString) (followString .unreadable xmlString) ∧
    ((∃ root, parseString .unreadable xmlString xmlString.length = .ok root) ∨
      ∃ returnStatus, parseString .unreadable xmlString xmlString.length = .error (.status returnStatus))

theorem staysInside_iff (xmlString : Text) :
    StaysInside xmlString ↔ AllVisited Place.Safe (followString .unreadable xmlString) := by
  have guarded := guarded_string xmlString
  have ends := guarded.ends
  have exact := guarded.exact
  rw [ending_followString] at ends exact
  rw [← exact, StaysInside, and_iff_right guarded.places]
  cases ended : parseString .unreadable xmlString xmlString.length with
  | ok root => simp
  | error stop =>
    cases stop with
    | status returnStatus => simp
    | fault => simp
    | exhausted => exact absurd ended ends

theorem text_without_end_tag_leaves : ¬ StaysInside "<a>x".toList := by
  have faulty : parseString .unreadable "<a>x".toList "<a>x".toList.length = .error .fault := by decide
  rw [StaysInside, faulty]
  simp

end Nodes

end CcspCommon.AnscXmlDomParser
