import CcspCommon.NamespaceMgr.RegNames
import CcspCommon.NamespaceMgr.Requests

set_option autoImplicit false

namespace CcspCommon.NamespaceMgr

open CcspCommon.Shared CcspCommon.AnscPlatform

section Model

inductive DiscoverError
  | invalidParam | unsupportedNamespace
deriving DecidableEq

structure ComponentStruct where
  componentName : Text
  dbusPath : Text
  type : DataType
  remoteCRName : Option Text
  remoteCRDbusPath : Option Text
deriving DecidableEq

def NamespaceComp.struct (type : DataType) (comp : NamespaceComp) : ComponentStruct :=
  ⟨comp.pCompName, comp.pDbusPath, type, none, none⟩

def nextLevel (pString : Text) : Bool :=
  match strstr ['.'] pString with
  | none => true
  | some pString => ['.', '{', 'i', '}', '.'].isPrefixOf pString || (strstr ['.'] (pString.drop 1)).isNone

def supports (pObjNamespace : Text) (bNextLevel : Bool) (pName : Text) : Bool :=
  pObjNamespace.isPrefixOf pName && (!bNextLevel || nextLevel (pName.drop pObjNamespace.length))

-- `CcspNsCompIsObjectSupported`; no result when it looks into an entry without a name.
def isObjectSupported (pObjNamespace : Text) (bNextLevel : Bool) : List CcspNamespace → Option Bool
  | [] => some false
  | entry :: rest =>
    match entry.pName with
    | none => none
    | some pName =>
      if supports pObjNamespace bNextLevel pName then some true else isObjectSupported pObjNamespace bNextLevel rest

def matchesPrefix (subsysPrefix pPrefix : Option Text) (comp : NamespaceComp) : Bool :=
  if pPrefix = none ∨ pPrefix = some [] then comp.pPrefix = []
  else (comp.pPrefix = [] && (subsysPrefix.isNone || pPrefix = subsysPrefix)) || pPrefix = some comp.pPrefix

/-- The test of the prefix for a parameter; no result for the length of a `SubsysPrefix` that is
NULL. -/
def refusesPrefix (subsysPrefix pPrefix : Option Text) (comp : NamespaceComp) : Option Bool :=
  if pPrefix = none ∨ pPrefix = some [] then some (comp.pPrefix ≠ [])
  else if comp.pPrefix ≠ [] ∧ pPrefix ≠ some comp.pPrefix then some true
  else subsysPrefix.map fun prefixName => prefixName = []

/-- One pass over the components for an object. The array `hArray` has room for 64 of them; there is
no result when the pass writes behind it. -/
def scanComponents (subsysPrefix pPrefix : Option Text) (pObjNamespace : Text) (bNextLevel : Bool) :
    List NamespaceComp → List NamespaceComp → Option (List NamespaceComp)
  | hArray, [] => some hArray
  | hArray, comp :: rest =>
    match isObjectSupported pObjNamespace bNextLevel comp.paramspaceQueue with
    | none => none
    | some bSupported =>
      if bSupported && matchesPrefix subsysPrefix pPrefix comp then
        if hArray.length < 64 then
          scanComponents subsysPrefix pPrefix pObjNamespace bNextLevel (hArray ++ [comp]) rest
        else none
      else scanComponents subsysPrefix pPrefix pObjNamespace bNextLevel hArray rest

def objectAnswer (hArray : List NamespaceComp) : Except DiscoverError (List ComponentStruct) :=
  if hArray = [] then .error .unsupportedNamespace else .ok (hArray.map (NamespaceComp.struct .none))

namespace Manager

variable {w : Nat}

def discoverParameter (subsysPrefix : Option Text) (mgr : Manager w) (table : AtomTable w)
    (pNamespace pNewSpace : Text) (bChange : Bool) (pPrefix : Option Text) :
    Option (Except DiscoverError (List ComponentStruct)) :=
  let pAtomItem := match table.getAtomByName (some pNewSpace) with
    | some pAtomItem => some pAtomItem
    | none => if bChange then table.getAtomByName (some pNamespace) else none
  match pAtomItem with
  | none => some (.error .unsupportedNamespace)
  | some pAtomItem =>
    (mgr.componentAt pAtomItem.hContext).bind fun comp =>
      (refusesPrefix subsysPrefix pPrefix comp).map fun refused =>
        if refused then .error .unsupportedNamespace else .ok [comp.struct pAtomItem.atomId]

def discoverObject (subsysPrefix : Option Text) (mgr : Manager w) (pNamespace pNewSpace : Text) (bChange : Bool)
    (pPrefix : Option Text) (bNextLevel : Bool) : Option (Except DiscoverError (List ComponentStruct)) :=
  (scanComponents subsysPrefix pPrefix pNewSpace bNextLevel [] mgr.componentQueue).bind fun hArray =>
    (if hArray = [] && bChange then
        -- run with original name space again
        scanComponents subsysPrefix pPrefix pNamespace bNextLevel [] mgr.componentQueue
      else some hArray).map objectAnswer

-- `CcspNsMgrDiscoverNamespace`; no result when the call leaves a buffer or follows a bad pointer.
def discoverNamespace (subsysPrefix : Option Text) (mgr : Manager w) (pNamespace pPrefix : Option Text)
    (bNextLevel : Bool) : Option (Except DiscoverError (List ComponentStruct)) :=
  match changeToRegNamespaceName pNamespace, pNamespace, mgr.hAtomNamespace with
  | none, _, _ => none
  | some (some (pNewSpace, bChange)), some pNamespace, some table =>
    if pNewSpace.getLast? ≠ some '.' then
      mgr.discoverParameter subsysPrefix table pNamespace pNewSpace bChange pPrefix
    else mgr.discoverObject subsysPrefix pNamespace pNewSpace bChange pPrefix bNextLevel
  | _, _, _ => some (.error .invalidParam)

end Manager

end Model

section Specification

variable {w : Nat}

def covers (trailing bNextLevel : Bool) (query pName : Text) : Bool :=
  if trailing then supports query bNextLevel pName else pName = query

def NamespaceComp.has (trailing bNextLevel : Bool) (query : Text) (comp : NamespaceComp) : Bool :=
  comp.names.any (covers trailing bNextLevel query)

structure Query where
  tokens : List Text
  trailing : Bool
  pPrefix : Option Text
  bNextLevel : Bool

namespace Query

def name (query : Query) : Text := dotted query.tokens query.trailing

def regName (query : Query) : Text := dotted (replaceTokens isInstanceNumber query.tokens) query.trailing

def wantedBy (rule : Option Text → NamespaceComp → Bool) (query : Query) (mgr : Manager w) : List NamespaceComp :=
  mgr.componentQueue.filter fun comp => rule query.pPrefix comp &&
    (comp.has query.trailing query.bNextLevel query.regName || comp.has query.trailing query.bNextLevel query.name)

def answer (query : Query) (subsysPrefix : Option Text) (mgr : Manager w) :
    Option (Except DiscoverError (List ComponentStruct)) :=
  mgr.discoverNamespace subsysPrefix (some query.name) query.pPrefix query.bNextLevel

structure DiscoversBy (rule : Option Text → NamespaceComp → Bool) (query : Query) (subsysPrefix : Option Text)
    (mgr : Manager w) : Prop where
  nothing : query.wantedBy rule mgr = [] → ∃ error, query.answer subsysPrefix mgr = some (.error error)
  all : query.wantedBy rule mgr ≠ [] → ∃ type,
    query.answer subsysPrefix mgr = some (.ok ((query.wantedBy rule mgr).map (NamespaceComp.struct type)))

abbrev Discovers (query : Query) (subsysPrefix : Option Text) (mgr : Manager w) : Prop :=
  query.DiscoversBy (matchesPrefix subsysPrefix) subsysPrefix mgr

end Query

structure KnownRightly (mgr : Manager w) (name : Text) : Prop where
  owner : ∀ comp ∈ mgr.componentQueue, name ∈ comp.names ↔ mgr.ownerOf name = some comp
  alive : ∀ table atom, mgr.hAtomNamespace = some table → table.getAtomByName (some name) = some atom →
    mgr.componentAt atom.hContext ≠ none

namespace Query

structure Regular (query : Query) (mgr : Manager w) : Prop where
  name : IsName query.tokens query.trailing
  replaced : ∀ token ∈ query.tokens, ReplacedRightly token
  fits : query.regName.length ≤ 255
  registered : query.trailing = false → KnownRightly mgr query.regName
  literal : query.trailing = false → KnownRightly mgr query.name

def found (query : Query) (subsysPrefix : Option Text) (mgr : Manager w) (name : Text) : List NamespaceComp :=
  mgr.componentQueue.filter fun comp =>
    matchesPrefix subsysPrefix query.pPrefix comp && comp.has true query.bNextLevel name

structure ObjectDelivers (query : Query) (subsysPrefix : Option Text) (mgr : Manager w) : Prop where
  named : ∀ comp ∈ mgr.componentQueue, isObjectSupported query.regName query.bNextLevel comp.paramspaceQueue ≠ none
  room : (query.found subsysPrefix mgr query.regName).length ≤ 64
  alone : query.found subsysPrefix mgr query.regName ≠ [] → ∀ comp ∈ mgr.componentQueue,
    matchesPrefix subsysPrefix query.pPrefix comp → comp.has true query.bNextLevel query.name →
      comp.has true query.bNextLevel query.regName
  namedAgain : query.found subsysPrefix mgr query.regName = [] →
    ∀ comp ∈ mgr.componentQueue, isObjectSupported query.name query.bNextLevel comp.paramspaceQueue ≠ none
  roomAgain : query.found subsysPrefix mgr query.regName = [] → (query.found subsysPrefix mgr query.name).length ≤ 64

def owner (query : Query) (mgr : Manager w) : Option NamespaceComp :=
  (mgr.ownerOf query.regName).or (mgr.ownerOf query.name)

structure ParameterDelivers (query : Query) (subsysPrefix : Option Text) (mgr : Manager w) : Prop where
  agrees : ∀ comp, query.owner mgr = some comp →
    refusesPrefix subsysPrefix query.pPrefix comp = some (!matchesPrefix subsysPrefix query.pPrefix comp)
  alone : mgr.ownerOf query.regName ≠ none → ∀ comp ∈ mgr.componentQueue,
    matchesPrefix subsysPrefix query.pPrefix comp → query.name ∈ comp.names → query.regName ∈ comp.names

structure Delivers (query : Query) (subsysPrefix : Option Text) (mgr : Manager w) : Prop where
  object : query.trailing = true → query.ObjectDelivers subsysPrefix mgr
  parameter : query.trailing = false → query.ParameterDelivers subsysPrefix mgr

end Query

end Specification

section Objects

variable {w : Nat} {query : Query} {subsysPrefix : Option Text} {mgr : Manager w}

theorem isObjectSupported_some {name : Text} {bNextLevel bSupported : Bool} {queue : List CcspNamespace}
    (run : isObjectSupported name bNextLevel queue = some bSupported) :
    (queue.filterMap CcspNamespace.pName).any (supports name bNextLevel) = bSupported := by
  induction queue with
  | nil => simpa [isObjectSupported] using run
  | cons entry rest ih =>
    rw [isObjectSupported] at run
    cases pName : entry.pName with
    | none => simp [pName] at run
    | some name' =>
      simp only [pName] at run
      rw [List.filterMap_cons_some pName, List.any_cons]
      cases first : supports name bNextLevel name' with
      | true => simpa [first] using run
      | false =>
        rw [first, if_neg (by simp)] at run
        rw [Bool.false_or]
        exact ih run

theorem scanComponents_some_iff {name : Text} {bNextLevel : Bool} {pPrefix : Option Text}
    {hArray queue result : List NamespaceComp} (room : hArray.length ≤ 64) :
    scanComponents subsysPrefix pPrefix name bNextLevel hArray queue = some result ↔
      (∀ comp ∈ queue, isObjectSupported name bNextLevel comp.paramspaceQueue ≠ none) ∧ result.length ≤ 64 ∧
        result = hArray ++ queue.filter fun comp =>
          matchesPrefix subsysPrefix pPrefix comp && comp.has true bNextLevel name := by
  induction queue generalizing hArray with
  | nil =>
    simp only [scanComponents, Option.some.injEq, List.filter_nil, List.append_nil]
    constructor
    · rintro rfl
      exact ⟨by simp, room, rfl⟩
    · exact fun same => same.2.2.symm
  | cons comp rest ih =>
    rw [scanComponents, List.forall_mem_cons]
    cases looked : isObjectSupported name bNextLevel comp.paramspaceQueue with
    | none => simp
    | some bSupported =>
      have same : comp.has true bNextLevel name = bSupported := isObjectSupported_some looked
      dsimp only
      rw [List.filter_cons, same, Bool.and_comm]
      cases chosen : matchesPrefix subsysPrefix pPrefix comp && bSupported with
      | false => simp [ih room]
      | true =>
        simp only [if_true]
        split
        next more =>
          have longer : (hArray ++ [comp]).length ≤ 64 := by
            rw [List.length_append, List.length_singleton]
            omega
          rw [ih longer]
          simp
        next full =>
          simp only [reduceCtorEq, ne_eq, not_false_eq_true, true_and, false_iff]
          intro fits
          obtain ⟨-, short, rfl⟩ := fits
          simp only [List.length_append, List.length_cons] at short
          omega

theorem getLast?_joinTokens {tokens : List Text} (nonempty : tokens ≠ [])
    (proper : ∀ token ∈ tokens, IsToken '.' token) :
    ∃ c, (joinTokens '.' tokens).getLast? = some c ∧ c ≠ '.' := by
  induction tokens with
  | nil => exact absurd rfl nonempty
  | cons token rest ih =>
    obtain ⟨letters, free⟩ := proper token List.mem_cons_self
    cases rest with
    | nil =>
      refine ⟨token.getLast letters, List.getLast?_eq_some_getLast letters, ?_⟩
      intro dot
      exact free (dot ▸ List.getLast_mem letters)
    | cons next more =>
      obtain ⟨c, last, other⟩ := ih (by simp) fun later member => proper later (.tail token member)
      refine ⟨c, ?_, other⟩
      rw [joinTokens, List.getLast?_append, List.getLast?_cons, last]
      rfl

theorem getLast?_dotted {tokens : List Text} (nonempty : tokens ≠ []) (proper : ∀ token ∈ tokens, IsToken '.' token)
    (trailing : Bool) : (dotted tokens trailing).getLast? = some '.' ↔ trailing = true := by
  cases trailing with
  | true => simp [dotted]
  | false =>
    obtain ⟨c, last, other⟩ := getLast?_joinTokens nonempty proper
    simp [dotted, last, other]

theorem Query.Regular.answer_eq (regular : query.Regular mgr) :
    query.answer subsysPrefix mgr =
      match mgr.hAtomNamespace with
      | none => some (.error .invalidParam)
      | some table =>
        if query.trailing then
          mgr.discoverObject subsysPrefix query.name query.regName (query.tokens.any startsInstance) query.pPrefix
            query.bNextLevel
        else
          mgr.discoverParameter subsysPrefix table query.name query.regName (query.tokens.any startsInstance)
            query.pPrefix := by
  have same := (replaceTokens_eq_iff regular.name.proper).mpr regular.replaced
  have changed : changeToRegNamespaceName (some query.name) =
      some (some (query.regName, query.tokens.any startsInstance)) := by
    have fits : (dotted (replaceTokens isInstanceNumber query.tokens) query.trailing).length < 256 :=
      Nat.lt_succ_of_le regular.fits
    rw [Query.name, changeToRegNamespaceName_eq regular.name, same, if_pos fits]
    rfl
  have last : query.regName.getLast? = some '.' ↔ query.trailing = true := by
    refine getLast?_dotted ?_ (replaceTokens_isToken _ regular.name.proper) _
    simpa [replaceTokens] using regular.name.some
  simp only [Query.answer, Manager.discoverNamespace, changed]
  cases present : mgr.hAtomNamespace with
  | none => rfl
  | some table =>
    dsimp only
    cases trailing : query.trailing <;> simp [last, trailing]

theorem Query.Regular.regName_eq (regular : query.Regular mgr) (unchanged : query.tokens.any startsInstance = false) :
    query.regName = query.name := by
  have same := (replaceTokens_eq_iff regular.name.proper).mpr regular.replaced
  rw [Query.regName, ← same, replaceTokens_of_none unchanged, Query.name]

theorem Query.wanted_object (object : query.trailing = true) :
    query.wantedBy (matchesPrefix subsysPrefix) mgr = mgr.componentQueue.filter fun comp =>
      matchesPrefix subsysPrefix query.pPrefix comp &&
        (comp.has true query.bNextLevel query.regName || comp.has true query.bNextLevel query.name) := by
  rw [Query.wantedBy, object]

theorem Query.found_sublist (subsysPrefix : Option Text) (mgr : Manager w) (object : query.trailing = true) :
    (query.found subsysPrefix mgr query.regName).Sublist (query.wantedBy (matchesPrefix subsysPrefix) mgr) := by
  rw [Query.wanted_object object, Query.found]
  refine List.monotone_filter_right _ fun comp chosen => ?_
  simp only [Bool.and_eq_true, Bool.or_eq_true] at chosen ⊢
  exact ⟨chosen.1, .inl chosen.2⟩

theorem Query.wanted_eq_found (object : query.trailing = true)
    (alone : ∀ comp ∈ mgr.componentQueue, matchesPrefix subsysPrefix query.pPrefix comp →
      comp.has true query.bNextLevel query.name → comp.has true query.bNextLevel query.regName) :
    query.wantedBy (matchesPrefix subsysPrefix) mgr = query.found subsysPrefix mgr query.regName := by
  rw [Query.wanted_object object, Query.found]
  refine List.filter_congr fun comp member => ?_
  have other := alone comp member
  cases first : matchesPrefix subsysPrefix query.pPrefix comp <;> simp_all

theorem Query.wanted_eq_again (object : query.trailing = true)
    (none : query.found subsysPrefix mgr query.regName = []) :
    query.wantedBy (matchesPrefix subsysPrefix) mgr = query.found subsysPrefix mgr query.name := by
  rw [Query.wanted_object object, Query.found]
  refine List.filter_congr fun comp member => ?_
  have missed := List.filter_eq_nil_iff.mp none comp member
  cases first : matchesPrefix subsysPrefix query.pPrefix comp <;> simp_all

theorem Query.answer_object {table : AtomTable w} (regular : query.Regular mgr) (object : query.trailing = true)
    (present : mgr.hAtomNamespace = some table) :
    query.answer subsysPrefix mgr =
      mgr.discoverObject subsysPrefix query.name query.regName (query.tokens.any startsInstance) query.pPrefix
        query.bNextLevel := by
  rw [regular.answer_eq, present, object]
  rfl

def Query.Passes (query : Query) (subsysPrefix : Option Text) (mgr : Manager w) (name : Text) : Prop :=
  (∀ comp ∈ mgr.componentQueue, isObjectSupported name query.bNextLevel comp.paramspaceQueue ≠ none) ∧
    (query.found subsysPrefix mgr name).length ≤ 64

theorem Query.scan_some_iff {name : Text} {result : List NamespaceComp} :
    scanComponents subsysPrefix query.pPrefix name query.bNextLevel [] mgr.componentQueue = some result ↔
      query.Passes subsysPrefix mgr name ∧ result = query.found subsysPrefix mgr name := by
  rw [scanComponents_some_iff (Nat.zero_le _), List.nil_append, Query.Passes, Query.found, and_assoc]
  refine and_congr_right fun _ => ?_
  constructor
  · intro both
    exact ⟨both.2 ▸ both.1, both.2⟩
  · intro both
    exact ⟨both.2.symm ▸ both.1, both.2⟩

theorem Query.Regular.answer_object_iff {table : AtomTable w} (regular : query.Regular mgr)
    (object : query.trailing = true) (present : mgr.hAtomNamespace = some table)
    {result : Except DiscoverError (List ComponentStruct)} :
    query.answer subsysPrefix mgr = some result ↔ query.Passes subsysPrefix mgr query.regName ∧
      if query.found subsysPrefix mgr query.regName = [] then
        query.Passes subsysPrefix mgr query.name ∧ result = objectAnswer (query.found subsysPrefix mgr query.name)
      else result = objectAnswer (query.found subsysPrefix mgr query.regName) := by
  rw [Query.answer_object regular object present, Manager.discoverObject, Option.bind_eq_some_iff]
  simp only [Query.scan_some_iff]
  constructor
  next =>
    intro ran
    obtain ⟨first, ⟨passes, rfl⟩, later⟩ := ran
    refine ⟨passes, ?_⟩
    split
    next none =>
      cases changed : query.tokens.any startsInstance with
      | true =>
        simp only [none, changed, Bool.and_self, decide_true, if_true, Option.map_eq_some_iff,
          Query.scan_some_iff] at later
        obtain ⟨_, ⟨again, rfl⟩, rfl⟩ := later
        exact ⟨again, rfl⟩
      | false =>
        simp only [changed, Bool.and_false, Bool.false_eq_true, if_false, Option.map_some, Option.some.injEq] at later
        rw [← regular.regName_eq changed]
        exact ⟨passes, later.symm⟩
    next some =>
      simp only [some, decide_false, Bool.false_and, Bool.false_eq_true, if_false, Option.map_some,
        Option.some.injEq] at later
      exact later.symm
  next =>
    intro ends
    obtain ⟨passes, later⟩ := ends
    refine ⟨_, ⟨passes, rfl⟩, ?_⟩
    split at later
    next none =>
      cases changed : query.tokens.any startsInstance with
      | true =>
        simp only [none, Bool.and_self, decide_true, if_true, Option.map_eq_some_iff, Query.scan_some_iff]
        exact ⟨_, ⟨later.1, rfl⟩, later.2.symm⟩
      | false =>
        rw [Bool.and_false, if_neg (by simp), Option.map_some, regular.regName_eq changed, later.2]
    next some => simp only [some, decide_false, Bool.false_and, Bool.false_eq_true, if_false, Option.map_some,
        later]

theorem Query.Regular.discovers_object_iff {table : AtomTable w} (regular : query.Regular mgr)
    (object : query.trailing = true) (present : mgr.hAtomNamespace = some table) :
    query.Discovers subsysPrefix mgr ↔ query.ObjectDelivers subsysPrefix mgr := by
  constructor
  next =>
    intro discovers
    obtain ⟨result, answered⟩ : ∃ result, query.answer subsysPrefix mgr = some result := by
      by_cases nothing : query.wantedBy (matchesPrefix subsysPrefix) mgr = []
      · obtain ⟨error, answered⟩ := discovers.nothing nothing
        exact ⟨_, answered⟩
      · obtain ⟨type, answered⟩ := discovers.all nothing
        exact ⟨_, answered⟩
    obtain ⟨⟨named, room⟩, later⟩ := (regular.answer_object_iff object present).mp answered
    refine ⟨named, room, fun some => ?_, fun none => ?_, fun none => ?_⟩
    · rw [if_neg some, objectAnswer, if_neg some] at later
      have within := Query.found_sublist subsysPrefix mgr object
      have wanted : query.wantedBy (matchesPrefix subsysPrefix) mgr ≠ [] := by
        intro nothing
        exact some (List.sublist_nil.mp (nothing ▸ within))
      obtain ⟨type, given⟩ := discovers.all wanted
      rw [answered, later, Option.some.injEq, Except.ok.injEq] at given
      have whole := within.eq_of_length (by simpa using congrArg List.length given)
      intro comp member matching other
      have chosen : comp ∈ query.wantedBy (matchesPrefix subsysPrefix) mgr := by
        rw [Query.wanted_object object]
        exact List.mem_filter.mpr ⟨member, by simp [matching, other]⟩
      rw [← whole] at chosen
      have both := (List.mem_filter.mp chosen).2
      simp only [Bool.and_eq_true] at both
      exact both.2
    · rw [if_pos none] at later
      exact later.1.1
    · rw [if_pos none] at later
      exact later.1.2
  next =>
    intro delivers
    have passes : query.Passes subsysPrefix mgr query.regName := ⟨delivers.named, delivers.room⟩
    have answered : query.answer subsysPrefix mgr =
      some (objectAnswer (query.wantedBy (matchesPrefix subsysPrefix) mgr)) := by
      refine (regular.answer_object_iff object present).mpr ⟨passes, ?_⟩
      split
      next none =>
        exact ⟨⟨delivers.namedAgain none, delivers.roomAgain none⟩, by rw [Query.wanted_eq_again object none]⟩
      next some => rw [Query.wanted_eq_found object (delivers.alone some)]
    exact ⟨fun nothing => ⟨_, by rw [answered, objectAnswer, if_pos nothing]⟩,
      fun some => ⟨.none, by rw [answered, objectAnswer, if_neg some]⟩⟩

end Objects

section Parameters

variable {w : Nat} {query : Query} {subsysPrefix : Option Text} {mgr : Manager w}

def parameterAnswer (subsysPrefix pPrefix : Option Text) (type : DataType) (comp : NamespaceComp) :
    Option (Except DiscoverError (List ComponentStruct)) :=
  (refusesPrefix subsysPrefix pPrefix comp).map fun refused =>
    if refused then .error .unsupportedNamespace else .ok [comp.struct type]

theorem KnownRightly.ownerOf_found {name : Text} {table : AtomTable w} {atom : AtomDescriptor}
    (known : KnownRightly mgr name) (present : mgr.hAtomNamespace = some table)
    (found : table.getAtomByName (some name) = some atom) :
    ∃ comp, mgr.componentAt atom.hContext = some comp ∧ mgr.ownerOf name = some comp := by
  obtain ⟨comp, located⟩ := Option.ne_none_iff_exists'.mp (known.alive table atom present found)
  exact ⟨comp, located, (Manager.ownerOf_eq present found).trans located⟩

theorem Query.Regular.answer_parameter (regular : query.Regular mgr) (subsysPrefix : Option Text)
    (parameter : query.trailing = false) :
    (query.owner mgr = none ∧ ∃ error, query.answer subsysPrefix mgr = some (.error error)) ∨
      ∃ comp type, query.owner mgr = some comp ∧
        query.answer subsysPrefix mgr = parameterAnswer subsysPrefix query.pPrefix type comp := by
  rw [regular.answer_eq, parameter, Query.owner]
  cases present : mgr.hAtomNamespace with
  | none => exact .inl ⟨by simp [Manager.ownerOf, present], _, rfl⟩
  | some table =>
    simp only [Bool.false_eq_true, if_false, Manager.discoverParameter]
    cases found : table.getAtomByName (some query.regName) with
    | some atom =>
      obtain ⟨comp, located, owned⟩ := (regular.registered parameter).ownerOf_found present found
      refine .inr ⟨comp, atom.atomId, by rw [owned, Option.some_or], ?_⟩
      simp only [located, Option.bind_some]
      rfl
    | none =>
      have unowned : mgr.ownerOf query.regName = none := by simp [Manager.ownerOf, present, found]
      rw [unowned, Option.none_or]
      cases changed : query.tokens.any startsInstance with
      | false =>
        rw [← regular.regName_eq changed]
        exact .inl ⟨unowned, _, rfl⟩
      | true =>
        simp only [if_true]
        cases again : table.getAtomByName (some query.name) with
        | none => exact .inl ⟨by simp [Manager.ownerOf, present, again], _, rfl⟩
        | some atom =>
          obtain ⟨comp, located, owned⟩ := (regular.literal parameter).ownerOf_found present again
          refine .inr ⟨comp, atom.atomId, owned, ?_⟩
          simp only [located, Option.bind_some]
          rfl

theorem has_parameter (bNextLevel : Bool) (name : Text) (comp : NamespaceComp) :
    comp.has false bNextLevel name = true ↔ name ∈ comp.names := by
  simp [NamespaceComp.has, covers]

theorem Query.mem_wanted_parameter (parameter : query.trailing = false) {comp : NamespaceComp} :
    comp ∈ query.wantedBy (matchesPrefix subsysPrefix) mgr ↔ comp ∈ mgr.componentQueue ∧
      matchesPrefix subsysPrefix query.pPrefix comp = true ∧
        (query.regName ∈ comp.names ∨ query.name ∈ comp.names) := by
  rw [Query.wantedBy, List.mem_filter, parameter, Bool.and_eq_true, Bool.or_eq_true, has_parameter, has_parameter]

theorem ownerOf_mem {name : Text} {comp : NamespaceComp} (owned : mgr.ownerOf name = some comp) :
    comp ∈ mgr.componentQueue := by
  simp only [Manager.ownerOf, Option.bind_eq_some_iff] at owned
  obtain ⟨table, -, atom, -, located⟩ := owned
  exact List.mem_of_find?_eq_some located

theorem Query.owner_mem {comp : NamespaceComp} (owned : query.owner mgr = some comp) : comp ∈ mgr.componentQueue := by
  rw [Query.owner, Option.or_eq_some_iff] at owned
  rcases owned with first | second
  · exact ownerOf_mem first
  · exact ownerOf_mem second.2

theorem Query.Regular.owner_has (regular : query.Regular mgr) (parameter : query.trailing = false)
    {comp : NamespaceComp}
    (owned : query.owner mgr = some comp) : query.regName ∈ comp.names ∨ query.name ∈ comp.names := by
  have member := Query.owner_mem owned
  rw [Query.owner, Option.or_eq_some_iff] at owned
  rcases owned with first | second
  · exact .inl (((regular.registered parameter).owner comp member).mpr first)
  · exact .inr (((regular.literal parameter).owner comp member).mpr second.2)

theorem Query.Regular.eq_owner (regular : query.Regular mgr) (parameter : query.trailing = false)
    {comp other : NamespaceComp} (owned : query.owner mgr = some comp) (member : other ∈ mgr.componentQueue)
    (alone : mgr.ownerOf query.regName ≠ none → query.name ∈ other.names → query.regName ∈ other.names)
    (owns : query.regName ∈ other.names ∨ query.name ∈ other.names) : other = comp := by
  have first := (regular.registered parameter).owner other member
  have second := (regular.literal parameter).owner other member
  rw [Query.owner] at owned
  cases known : mgr.ownerOf query.regName with
  | none =>
    rw [known, Option.none_or] at owned
    have missing : query.regName ∉ other.names := fun inside => by simp [known] at first; exact first inside
    exact Option.some.inj ((second.mp (owns.resolve_left missing)).symm.trans owned)
  | some found =>
    rw [known, Option.some_or] at owned
    have inside : query.regName ∈ other.names := owns.elim id (alone (by simp [known]))
    exact Option.some.inj ((first.mp inside).symm.trans (known.trans owned))

theorem filter_eq_singleton {queue : List NamespaceComp} {comp : NamespaceComp} {test : NamespaceComp → Bool}
    (distinct : queue.Nodup) (member : comp ∈ queue) (only : ∀ other ∈ queue, test other = true ↔ other = comp) :
    queue.filter test = [comp] := by
  have same : queue.filter test = queue.filter (· = comp) :=
    List.filter_congr fun other inside => by simpa using Bool.eq_iff_iff.mpr (by simpa using only other inside)
  rw [same, List.filter_eq, List.count_eq_one_of_mem distinct member]
  rfl

theorem struct_injOn (apart : (mgr.componentQueue.map (NamespaceComp.struct .none)).Nodup) {comp other : NamespaceComp}
    (member : comp ∈ mgr.componentQueue) (inside : other ∈ mgr.componentQueue) {type type' : DataType}
    (same : comp.struct type = other.struct type') : comp = other := by
  refine List.inj_on_of_nodup_map apart member inside ?_
  simp only [NamespaceComp.struct, ComponentStruct.mk.injEq] at same
  rw [NamespaceComp.struct, NamespaceComp.struct, same.1, same.2.1]

theorem Query.Regular.discovers_parameter (regular : query.Regular mgr) (addressed : mgr.Addressed)
    (parameter : query.trailing = false) (delivers : query.ParameterDelivers subsysPrefix mgr) :
    query.Discovers subsysPrefix mgr := by
  rcases regular.answer_parameter subsysPrefix parameter with
    ⟨unowned, error, answered⟩ | ⟨comp, type, owned, answered⟩
  next =>
    have nothing : query.wantedBy (matchesPrefix subsysPrefix) mgr = [] := by
      refine List.eq_nil_iff_forall_not_mem.mpr fun comp member => ?_
      obtain ⟨inside, -, owns⟩ := (Query.mem_wanted_parameter parameter).mp member
      rw [Query.owner, Option.or_eq_none_iff] at unowned
      rcases owns with first | second
      · simp [((regular.registered parameter).owner comp inside).mp first] at unowned
      · simp [((regular.literal parameter).owner comp inside).mp second] at unowned
    exact ⟨fun _ => ⟨error, answered⟩, fun some => absurd nothing some⟩
  next =>
    have member := Query.owner_mem owned
    rw [parameterAnswer, delivers.agrees comp owned, Option.map_some] at answered
    cases matching : matchesPrefix subsysPrefix query.pPrefix comp with
    | true =>
      have single : query.wantedBy (matchesPrefix subsysPrefix) mgr = [comp] := by
        refine filter_eq_singleton addressed.distinct.of_map member fun other inside => ?_
        have chosen : other ∈ query.wantedBy (matchesPrefix subsysPrefix) mgr ↔ _ :=
          Query.mem_wanted_parameter parameter
        rw [Query.wantedBy, List.mem_filter, and_congr_right_iff] at chosen
        rw [chosen inside]
        constructor
        · intro both
          exact regular.eq_owner parameter owned inside (fun known => delivers.alone known other inside both.1) both.2
        · rintro rfl
          exact ⟨matching, regular.owner_has parameter owned⟩
      rw [matching] at answered
      exact ⟨fun nothing => absurd (single.symm.trans nothing) (by simp),
        fun _ => ⟨type, by rw [single]; exact answered⟩⟩
    | false =>
      have nothing : query.wantedBy (matchesPrefix subsysPrefix) mgr = [] := by
        refine List.eq_nil_iff_forall_not_mem.mpr fun other chosen => ?_
        obtain ⟨inside, matchesToo, owns⟩ := (Query.mem_wanted_parameter parameter).mp chosen
        have same := regular.eq_owner parameter owned inside
          (fun known => delivers.alone known other inside matchesToo) owns
        rw [same, matching] at matchesToo
        cases matchesToo
      rw [matching] at answered
      exact ⟨fun _ => ⟨_, answered⟩, fun some => absurd nothing some⟩

theorem Query.Regular.parameterDelivers (regular : query.Regular mgr) (parameter : query.trailing = false)
    (apart : (mgr.componentQueue.map (NamespaceComp.struct .none)).Nodup)
    (discovers : query.Discovers subsysPrefix mgr) :
    query.ParameterDelivers subsysPrefix mgr := by
  have chosen (comp : NamespaceComp) : comp ∈ query.wantedBy (matchesPrefix subsysPrefix) mgr ↔ _ :=
    Query.mem_wanted_parameter parameter
  rcases regular.answer_parameter subsysPrefix parameter with
    ⟨unowned, error, answered⟩ | ⟨comp, type, owned, answered⟩
  next =>
    rw [Query.owner, Option.or_eq_none_iff] at unowned
    constructor
    · intro comp owned
      simp [Query.owner, unowned] at owned
    · exact fun known => absurd unowned.1 known
  next =>
    have member := Query.owner_mem owned
    have has := regular.owner_has parameter owned
    have unique (other : NamespaceComp) : query.owner mgr = some other → other = comp :=
      fun again => Option.some.inj (again.symm.trans owned)
    rw [parameterAnswer] at answered
    cases refused : refusesPrefix subsysPrefix query.pPrefix comp with
    | none =>
      rw [refused, Option.map_none] at answered
      by_cases nothing : query.wantedBy (matchesPrefix subsysPrefix) mgr = []
      · obtain ⟨error, given⟩ := discovers.nothing nothing
        cases answered.symm.trans given
      · obtain ⟨type, given⟩ := discovers.all nothing
        cases answered.symm.trans given
    | some bRefused =>
      cases bRefused with
      | true =>
        rw [refused, Option.map_some] at answered
        have nothing : query.wantedBy (matchesPrefix subsysPrefix) mgr = [] := by
          by_contra some
          obtain ⟨type, given⟩ := discovers.all some
          cases answered.symm.trans given
        have none : ∀ other, other ∉ query.wantedBy (matchesPrefix subsysPrefix) mgr := by simp [nothing]
        constructor
        · intro other again
          rw [unique other again, refused]
          cases matching : matchesPrefix subsysPrefix query.pPrefix comp with
          | false => rfl
          | true => exact absurd ((chosen comp).mpr ⟨member, matching, has⟩) (none comp)
        · intro _ other inside matching second
          exact absurd ((chosen other).mpr ⟨inside, matching, .inr second⟩) (none other)
      | false =>
        rw [refused, Option.map_some, if_neg (by simp)] at answered
        have some : query.wantedBy (matchesPrefix subsysPrefix) mgr ≠ [] := by
          intro nothing
          obtain ⟨error, given⟩ := discovers.nothing nothing
          cases answered.symm.trans given
        obtain ⟨type', given⟩ := discovers.all some
        rw [answered, Option.some.injEq, Except.ok.injEq] at given
        obtain ⟨found, single, same⟩ := List.map_eq_singleton_iff.mp given.symm
        have inside : found ∈ query.wantedBy (matchesPrefix subsysPrefix) mgr := by simp [single]
        obtain rfl : found = comp := struct_injOn apart ((chosen found).mp inside).1 member same
        have matching := ((chosen found).mp inside).2.1
        constructor
        · intro other again
          rw [unique other again, refused, matching]
          rfl
        · intro known other inside matchesToo second
          have alike := (chosen other).mpr ⟨inside, matchesToo, .inr second⟩
          rw [single, List.mem_singleton] at alike
          subst alike
          obtain ⟨first, found⟩ := Option.ne_none_iff_exists'.mp known
          have head : query.owner mgr = Option.some first := by rw [Query.owner, found, Option.some_or]
          exact ((regular.registered parameter).owner other member).mpr (unique first head ▸ found)

end Parameters

section Reached

variable {w : Nat} {mgr : Manager w}

def Tableless (mgr : Manager w) : Prop :=
  mgr.hAtomNamespace = none → ∀ comp ∈ mgr.componentQueue, comp.paramspaceQueue = []

theorem addNamespaces_tableless (tableless : Tableless mgr) {pCompName pDbusPath pPrefix : Option Text}
    {settled : List NameSpaceType} {status : Status} {after : Manager w}
    (run : mgr.addNamespaces pCompName pDbusPath pPrefix (settled.map some) = some (status, after)) :
    Tableless after := by
  rcases enlist : mgr.enlistComponent pCompName pDbusPath pPrefix with ⟨enlisted, comp⟩
  simp only [Manager.addNamespaces, enlist, Option.map_eq_some_iff, Prod.mk.injEq] at run
  obtain ⟨later, atoms, -, rfl⟩ := run
  intro missing
  change later = none at missing
  subst missing
  cases present : mgr.hAtomNamespace with
  | some table =>
    obtain ⟨other, total⟩ := Manager.addAtoms_total comp.handle table (settled.map some)
    rw [present, total] at atoms
    cases atoms
  | none =>
    cases settled with
    | cons item rest => simp [present, Manager.addAtoms] at atoms
    | nil =>
      have empty := tableless present
      have enlistedEmpty :
        comp.paramspaceQueue = [] ∧ ∀ other ∈ enlisted.componentQueue, other.paramspaceQueue = [] := by
        unfold Manager.enlistComponent at enlist
        split at enlist
        next found known =>
          obtain ⟨rfl, rfl⟩ := Prod.mk.inj enlist
          exact ⟨empty _ (mgr.lookforComponent_mem known), empty⟩
        next =>
          obtain ⟨rfl, rfl⟩ := Prod.mk.inj enlist
          exact ⟨rfl, by simpa [or_imp, forall_and] using ⟨empty, rfl⟩⟩
      intro other member
      rcases Manager.mem_putComponent member with rfl | kept
      · simp [NamespaceComp.buildFromNamespaceStructArray, enlistedEmpty.1]
      · exact enlistedEmpty.2 other kept

theorem delAtoms_some (queue : List CcspNamespace) (table : AtomTable w) :
    ∃ later, Manager.delAtoms (some table) queue = some (some later) := by
  induction queue generalizing table with
  | nil => exact ⟨table, rfl⟩
  | cons entry rest ih => exact ih _

theorem step_tableless {after : Manager w} {call : Manager.Call} (tableless : Tableless mgr)
    (run : mgr.step call = some after) : Tableless after := by
  cases call with
  | registerNamespaces pCompName pDbusPath pPrefix items =>
    obtain ⟨⟨status, result⟩, made, rfl⟩ := Option.map_eq_some_iff.mp run
    unfold Manager.registerNamespaces at made
    split at made
    · cases made
    · simp only [Option.some.injEq, Prod.mk.injEq] at made
      exact made.2 ▸ tableless
    next pass =>
      obtain ⟨settled, rfl, -⟩ := mgr.validateNamespaces_pass pCompName items pass
      exact addNamespaces_tableless tableless made
  | buildNamespaces pCompName pDbusPath pPrefix items =>
    obtain ⟨⟨status, result⟩, made, rfl⟩ := Option.map_eq_some_iff.mp run
    simp only [Manager.buildNamespaces, Option.bind_eq_some_iff] at made
    obtain ⟨copy, filtered, made⟩ := made
    obtain ⟨settled, rfl, -, -⟩ := Manager.unregistered_spec _ items copy filtered
    refine addNamespaces_tableless ?_ made
    exact fun none => absurd none (by simp)
  | unregisterNamespace pCompName pNamespace =>
    obtain ⟨⟨status, result⟩, made, rfl⟩ := Option.map_eq_some_iff.mp run
    rcases mgr.unregisterNamespace_cases pCompName pNamespace made with
      rfl | ⟨comp, table, atom, queue, -, -, rfl⟩
    · exact tableless
    · exact fun none => absurd none (by simp)
  | unregisterComponent pCompName =>
    obtain ⟨⟨status, result⟩, made, rfl⟩ := Option.map_eq_some_iff.mp run
    unfold Manager.unregisterComponent at made
    split at made
    · simp only [Option.some.injEq, Prod.mk.injEq] at made
      exact made.2 ▸ tableless
    next comp known =>
      simp only [Option.map_eq_some_iff, Prod.mk.injEq] at made
      obtain ⟨later, deleted, -, rfl⟩ := made
      intro missing other member
      change later = none at missing
      cases present : mgr.hAtomNamespace with
      | none => exact tableless present other (List.mem_of_mem_eraseP member)
      | some table =>
        obtain ⟨kept, total⟩ := delAtoms_some comp.paramspaceQueue table
        rw [present, total, missing] at deleted
        cases deleted
  | cleanAll =>
    obtain rfl := Option.some.inj run
    intro _ comp member
    cases member

theorem reachable_tableless (reached : Reachable Manager.step (fun _ _ => True) Manager.create mgr) : Tableless mgr :=
  reached.invariant (fun none => absurd none (by simp [Manager.create])) fun _ _ _ tableless _ run =>
    step_tableless tableless run

variable {query : Query} {subsysPrefix : Option Text}

theorem Query.Regular.discovers_tableless (regular : query.Regular mgr) (subsysPrefix : Option Text)
    (object : query.trailing = true)
    (tableless : Tableless mgr) (missing : mgr.hAtomNamespace = none) :
    query.Discovers subsysPrefix mgr ∧ query.ObjectDelivers subsysPrefix mgr := by
  have empty := tableless missing
  have none (name : Text) (comp : NamespaceComp) (member : comp ∈ mgr.componentQueue) :
      comp.has true query.bNextLevel name = false := by
    simp [NamespaceComp.has, NamespaceComp.names, empty comp member]
  have supported (name : Text) (comp : NamespaceComp) (member : comp ∈ mgr.componentQueue) :
      isObjectSupported name query.bNextLevel comp.paramspaceQueue ≠ Option.none := by
    simp [empty comp member, isObjectSupported]
  have nothing (name : Text) : query.found subsysPrefix mgr name = [] :=
    List.filter_eq_nil_iff.mpr fun comp member => by simp [none name comp member]
  have wanted : query.wantedBy (matchesPrefix subsysPrefix) mgr = [] := by
    rw [Query.wanted_eq_again object (nothing _), nothing]
  refine ⟨⟨fun _ => ⟨.invalidParam, ?_⟩, fun some => absurd wanted some⟩,
    ⟨supported _, ?_, ?_, fun _ => supported _, ?_⟩⟩
  · rw [regular.answer_eq, missing]
  · simp [nothing]
  · exact fun some => absurd (nothing _) some
  · simp [nothing]

theorem discovery_exact (reached : Reachable Manager.step (fun _ _ => True) Manager.create mgr)
    (subsysPrefix : Option Text) (query : Query) (regular : query.Regular mgr) :
    (query.Delivers subsysPrefix mgr → query.Discovers subsysPrefix mgr) ∧
      ((mgr.componentQueue.map (NamespaceComp.struct .none)).Nodup → query.Discovers subsysPrefix mgr →
        query.Delivers subsysPrefix mgr) := by
  have addressed := (Manager.reachable_sound reached).addressed
  cases kind : query.trailing with
  | true =>
    have exact : query.Discovers subsysPrefix mgr ↔ query.ObjectDelivers subsysPrefix mgr := by
      cases present : mgr.hAtomNamespace with
      | none =>
        obtain ⟨discovers, delivers⟩ :=
          regular.discovers_tableless subsysPrefix kind (reachable_tableless reached) present
        exact iff_of_true discovers delivers
      | some table => exact regular.discovers_object_iff kind present
    exact ⟨fun delivers => exact.mpr (delivers.object kind),
      fun _ discovers => ⟨fun _ => exact.mp discovers, fun parameter => by simp [kind] at parameter⟩⟩
  | false =>
    exact ⟨fun delivers => regular.discovers_parameter addressed kind (delivers.parameter kind),
      fun apart discovers => ⟨fun object => by simp [kind] at object,
        fun _ => regular.parameterDelivers kind apart discovers⟩⟩

def oneParameter : List Manager.Call :=
  [.registerNamespaces (some "A".toList) none none [some ⟨some "Device.x".toList, .string⟩]]

def threeComponents : List Manager.Call :=
  [.registerNamespaces (some "A".toList) none none
    [some ⟨some "Device.T.{i}.x".toList, .string⟩, some ⟨some "Device.y".toList, .string⟩],
  .registerNamespaces (some "B".toList) none none [some ⟨some "Device.z".toList, .string⟩],
  .registerNamespaces (some "C".toList) none none [some ⟨some "Device.T.{i}.w".toList, .string⟩]]

theorem discovery_exact_object : ∃ mgr : Manager 64,
    runAll Manager.step Manager.create threeComponents = some mgr ∧
    Query.Discovers ⟨["Device".toList, "T".toList, "1".toList], true, none, false⟩ (some "eRT.".toList) mgr ∧
    Query.Discovers ⟨["Device".toList, "T".toList, "1".toList, "w".toList], false, none, false⟩ (some "eRT.".toList)
      mgr := by
  obtain ⟨mgr, run⟩ : ∃ mgr : Manager 64, runAll Manager.step Manager.create threeComponents = some mgr := ⟨_, rfl⟩
  have reached := runAll_reachable threeComponents (fun _ _ _ => trivial) .start run
  refine ⟨mgr, run, (discovery_exact reached _ _ ?_).1 ⟨fun _ => ?_, by simp⟩,
    (discovery_exact reached _ _ ?_).1 ⟨by simp, fun _ => ?_⟩⟩
  all_goals obtain rfl := Option.some.inj run
  next => exact ⟨⟨by decide, by decide, by decide⟩, by decide, by decide, by simp, by simp⟩
  next => exact ⟨by decide, by decide, fun _ => by decide, fun _ => by decide, fun _ => by decide⟩
  next =>
    refine ⟨⟨by decide, by decide, by decide⟩, by decide, by decide, fun _ => ⟨by decide, ?_⟩, fun _ => ⟨by decide, ?_⟩⟩
    next =>
      rintro table atom same found
      obtain rfl := Option.some.inj same
      obtain rfl := Option.some.inj found
      decide
    next =>
      rintro table atom same found
      obtain rfl := Option.some.inj same
      cases found
  next => exact ⟨by decide, by decide⟩

/-- No rule for the prefixes fits both kinds of query: asked with the prefix `eMG.`, the search for the parameter
answers with the component of the subsystem `eRT.`, the search for its object does not. -/
theorem discovery_has_no_rule :
    ¬ ∀ mgr : Manager 64, Reachable Manager.step (fun _ _ => True) Manager.create mgr → ∀ subsysPrefix,
      ∃ rule, ∀ query : Query, IsName query.tokens query.trailing → query.DiscoversBy rule subsysPrefix mgr := by
  intro always
  obtain ⟨mgr, run⟩ : ∃ mgr : Manager 64, runAll Manager.step Manager.create oneParameter = some mgr := ⟨_, rfl⟩
  have reached := runAll_reachable oneParameter (fun _ _ _ => trivial) .start run
  obtain rfl := Option.some.inj run
  obtain ⟨rule, fits⟩ := always _ reached (some "eRT.".toList)
  have parameter := fits ⟨["Device".toList, "x".toList], false, some "eMG.".toList, false⟩
    ⟨by decide, by decide, by decide⟩
  have object := fits ⟨["Device".toList], true, some "eMG.".toList, false⟩ ⟨by decide, by decide, by decide⟩
  let comp : NamespaceComp := ⟨1, "A".toList, [], [], [⟨some "Device.x".toList, .string, false⟩]⟩
  cases matching : rule (some "eMG.".toList) comp with
  | true =>
    have owned : comp.has true false (dotted ["Device".toList] true) = true := by decide
    obtain ⟨type, answered⟩ := object.all fun nothing =>
      List.filter_eq_nil_iff.mp nothing comp List.mem_cons_self (by
        rw [matching, Bool.true_and, Bool.or_eq_true]
        exact .inl owned)
    cases answered
  | false =>
    obtain ⟨error, answered⟩ := parameter.nothing (List.filter_eq_nil_iff.mpr fun other member => by
      obtain rfl : other = comp := List.mem_singleton.mp member
      rw [matching, Bool.false_and]
      exact Bool.false_ne_true)
    cases answered

end Reached

end CcspCommon.NamespaceMgr
