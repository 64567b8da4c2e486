import CcspCommon.Shared.Links
import CcspCommon.Shared.Refinement

set_option autoImplicit false

namespace CcspCommon.AnscPlatform

open CcspCommon.Shared

section Model

variable {P : Type} [DecidableEq P]

structure DList (P : Type) where
  next : P → Option P
  last : P → Option P
  headsNext : Option P
  headsLast : Option P
  depth : Nat

def ushort (n : Nat) : Nat := n % 65536

namespace DList

def initializeHeader (list : DList P) : DList P :=
  { list with headsNext := none, headsLast := none, depth := 0 }

def setNext (list : DList P) (entry : P) (value : Option P) : DList P :=
  { list with next := Function.update list.next entry value }

def setLast (list : DList P) (entry : P) (value : Option P) : DList P :=
  { list with last := Function.update list.last entry value }

def walk (list : DList P) : Nat → Option P → Option P
  | 0, entry => entry
  | _ + 1, none => none
  | ulIndex + 1, some entry => list.walk ulIndex (list.next entry)

def getEntryByIndex (list : DList P) (ulIndex : Nat) : Option P := list.walk ulIndex list.headsNext

def pushEntryLeft (list : DList P) (entry : P) : DList P :=
  let headEntry := list.headsNext
  let tailEntry := list.headsLast
  let list := match headEntry with
    | some head => list.setLast head (some entry)
    | none => list
  let list := (list.setNext entry headEntry).setLast entry none
  { list with
    headsNext := some entry
    headsLast := if tailEntry.isNone then some entry else list.headsLast
    depth := ushort (list.depth + 1) }

def pushEntryRight (list : DList P) (entry : P) : DList P :=
  let headEntry := list.headsNext
  let tailEntry := list.headsLast
  let list := match tailEntry with
    | some tail => list.setNext tail (some entry)
    | none => list
  let list := (list.setNext entry none).setLast entry tailEntry
  { list with
    headsLast := some entry
    headsNext := if headEntry.isNone then some entry else list.headsNext
    depth := ushort (list.depth + 1) }

def linkBetween (list : DList P) (entry : P) (lastEntry nextEntry : Option P) : DList P :=
  let list := (list.setLast entry lastEntry).setNext entry nextEntry
  let list := match lastEntry with
    | some last => list.setNext last (some entry)
    | none => { list with headsNext := some entry }
  let list := match nextEntry with
    | some next => list.setLast next (some entry)
    | none => { list with headsLast := some entry }
  { list with depth := ushort (list.depth + 1) }

-- `AnscDListPushEntryAtIndex`; there is no result where it reads through NULL.
def pushEntryAtIndex (list : DList P) (entry : P) (ulIndex : Nat) : Option (DList P) :=
  if ulIndex > list.depth then some list
  else if ulIndex = 0 then
    -- the successor of the head, not the head
    match list.headsNext with
    | none => none
    | some head => some (list.linkBetween entry none (list.next head))
  else if ulIndex = list.depth then some (list.linkBetween entry list.headsLast none)
  else
    match list.getEntryByIndex (ulIndex - 1) with
    | none => none
    | some last => some (list.linkBetween entry (some last) (list.next last))

def popEntryLeft (list : DList P) : DList P × Option P :=
  match list.headsNext with
  | none => (list, none)
  | some head =>
    let nextEntry := list.next head
    let list := { list with headsNext := nextEntry, depth := ushort (list.depth + 65535) }
    match nextEntry with
    | some next => (list.setLast next none, some head)
    | none => ({ list with headsLast := none }, some head)

def popEntryRight (list : DList P) : DList P × Option P :=
  match list.headsLast with
  | none => (list, none)
  | some tail =>
    let lastEntry := list.last tail
    let list := { list with headsLast := lastEntry, depth := ushort (list.depth + 65535) }
    match lastEntry with
    | some last => (list.setNext last none, some tail)
    | none => ({ list with headsNext := none }, some tail)

def popEntryByLink (list : DList P) (entry : P) : DList P :=
  let prevEntry := list.last entry
  let nextEntry := list.next entry
  let headsNext := if some entry = list.headsNext then nextEntry else list.headsNext
  let headsLast := if some entry = list.headsLast then prevEntry else list.headsLast
  let list := { list with headsNext := headsNext, headsLast := headsLast }
  let list := match prevEntry with
    | some prev => list.setNext prev nextEntry
    | none => list
  let list := match nextEntry with
    | some next => list.setLast next prevEntry
    | none => list
  { list with depth := ushort (list.depth + 65535) }

def popEntryByIndex (list : DList P) (ulIndex : Nat) : DList P × Option P :=
  match list.getEntryByIndex ulIndex with
  | none => (list, none)
  | some entry => (list.popEntryByLink entry, some entry)

def pushEntryLeftFixNumber (list : DList P) (entry : P) (max : Nat) : DList P × Option P :=
  let list := list.pushEntryLeft entry
  if list.depth > max then list.popEntryRight else (list, none)

end DList

end Model

section Representation

variable {P : Type}

namespace DList

structure Represents (header : DList P) (list : List P) : Prop where
  nodup : list.Nodup
  forward : Path header.next header.headsNext list none
  backward : Path header.last header.headsLast list.reverse none
  depth : header.depth = list.length
  bounded : list.length ≤ 65535

variable {header : DList P} {list : List P} {entry : P}

theorem initializeHeader_represents (header : DList P) : header.initializeHeader.Represents [] :=
  ⟨List.nodup_nil, rfl, rfl, rfl, Nat.zero_le _⟩

theorem Represents.headsNext_eq (represents : header.Represents list) : header.headsNext = list.head? := by
  simpa using represents.forward.start_eq

theorem Represents.headsLast_eq (represents : header.Represents list) : header.headsLast = list.getLast? := by
  simpa using represents.backward.start_eq

theorem Represents.next_eq {first second : List P} (represents : header.Represents (first ++ entry :: second)) :
    header.next entry = second.head? :=
  represents.forward.next_eq

theorem Represents.last_eq {first second : List P} (represents : header.Represents (first ++ entry :: second)) :
    header.last entry = first.getLast? := by
  have backward := represents.backward
  rw [List.reverse_append, List.reverse_cons, List.append_assoc] at backward
  simpa using backward.next_eq

variable [DecidableEq P]

theorem linkBetween_eq (header : DList P) (entry : P) (lastEntry nextEntry : Option P) :
    header.linkBetween entry lastEntry nextEntry =
      ⟨relink (Function.update header.next entry nextEntry) lastEntry (some entry),
        relink (Function.update header.last entry lastEntry) nextEntry (some entry),
        restart header.headsNext lastEntry (some entry), restart header.headsLast nextEntry (some entry),
        ushort (header.depth + 1)⟩ := by
  cases lastEntry <;> cases nextEntry <;> rfl

theorem linkBetween_represents (first second : List P) (represents : header.Represents (first ++ second))
    (fresh : entry ∉ first ++ second) (room : (first ++ second).length < 65535) :
    (header.linkBetween entry first.getLast? second.head?).Represents (first ++ entry :: second) := by
  obtain ⟨nodup, forward, backward, depth, -⟩ := represents
  have length : (first ++ entry :: second).length = (first ++ second).length + 1 := by simp; omega
  rw [List.reverse_append] at backward
  have nodupReverse : (second.reverse ++ first.reverse).Nodup := by
    rw [← List.reverse_append]
    exact List.nodup_reverse.mpr nodup
  have freshReverse : entry ∉ second.reverse ++ first.reverse := by
    rw [← List.reverse_append, List.mem_reverse]
    exact fresh
  have ahead := forward.insert nodup fresh
  have back := backward.insert nodupReverse freshReverse
  rw [linkBetween_eq]
  constructor
  next =>
    rw [List.nodup_middle, List.nodup_cons]
    exact ⟨fresh, nodup⟩
  next => simpa using ahead
  next => simpa using back
  next =>
    rw [length, depth, ushort, Nat.mod_eq_of_lt (by omega)]
  next => omega

def unlink (header : DList P) (prevEntry nextEntry : Option P) : DList P :=
  ⟨relink header.next prevEntry nextEntry, relink header.last nextEntry prevEntry,
    restart header.headsNext prevEntry nextEntry, restart header.headsLast nextEntry prevEntry,
    ushort (header.depth + 65535)⟩

theorem unlink_represents (first second : List P) (represents : header.Represents (first ++ entry :: second)) :
    (header.unlink first.getLast? second.head?).Represents (first ++ second) := by
  have nextEntry := represents.next_eq
  have prevEntry := represents.last_eq
  obtain ⟨nodup, forward, backward, depth, bounded⟩ := represents
  have length : (first ++ entry :: second).length = (first ++ second).length + 1 := by simp; omega
  have reversed : (first ++ entry :: second).reverse = second.reverse ++ entry :: first.reverse := by simp
  rw [reversed] at backward
  have nodupReverse : (second.reverse ++ entry :: first.reverse).Nodup := by
    rw [← reversed]
    exact List.nodup_reverse.mpr nodup
  have ahead := forward.remove nodup
  have back := backward.remove nodupReverse
  rw [nextEntry] at ahead
  rw [prevEntry] at back
  constructor
  next => exact (List.nodup_cons.mp (List.nodup_middle.mp nodup)).2
  next => exact ahead
  next => simpa [unlink] using back
  next =>
    change ushort (header.depth + 65535) = _
    rw [depth, length, ushort]
    omega
  next => omega

theorem pushEntryLeft_represents (represents : header.Represents list) (fresh : entry ∉ list)
    (room : list.length < 65535) : (header.pushEntryLeft entry).Represents (entry :: list) := by
  have linked := linkBetween_represents [] list represents fresh room
  have same : header.pushEntryLeft entry = header.linkBetween entry none list.head? := by
    rw [linkBetween_eq, pushEntryLeft, represents.headsNext_eq, represents.headsLast_eq]
    cases list with
    | nil => rfl
    | cons head rest =>
      have differs : entry ≠ head := by
        rintro rfl
        exact fresh List.mem_cons_self
      simp [setLast, setNext, relink, restart, Function.update_comm differs, represents.headsLast_eq]
  rw [same]
  exact linked

theorem pushEntryRight_represents (represents : header.Represents list) (fresh : entry ∉ list)
    (room : list.length < 65535) : (header.pushEntryRight entry).Represents (list ++ [entry]) := by
  have linked := linkBetween_represents list [] (by simpa using represents)
    (by simpa using fresh) (by simpa using room)
  have same : header.pushEntryRight entry = header.linkBetween entry list.getLast? none := by
    rw [linkBetween_eq, pushEntryRight, represents.headsNext_eq, represents.headsLast_eq]
    rcases List.eq_nil_or_concat list with rfl | ⟨front, tail, rfl⟩
    · rfl
    · have differs : entry ≠ tail := by
        rintro rfl
        exact fresh (by simp)
      have some : ∃ head, (front ++ [tail]).head? = some head := by cases front <;> simp
      obtain ⟨head, isHead⟩ := some
      simp [setLast, setNext, relink, restart, Function.update_comm differs, represents.headsNext_eq, isHead]
  rw [same]
  exact linked

theorem popEntryByLink_represents {first second : List P}
    (represents : header.Represents (first ++ entry :: second)) :
    (header.popEntryByLink entry).Represents (first ++ second) := by
  have same : header.popEntryByLink entry = header.unlink first.getLast? second.head? := by
    rw [popEntryByLink, unlink, represents.next_eq, represents.last_eq]
    have atHead : (if some entry = header.headsNext then second.head? else header.headsNext) =
        restart header.headsNext first.getLast? second.head? := by
      rw [represents.headsNext_eq]
      cases first with
      | nil => simp [restart]
      | cons head rest =>
        have differs : entry ≠ head := by
          rintro rfl
          exact absurd represents.nodup (by simp)
        simp [restart, differs, List.getLast?_cons]
    have atTail : (if some entry = header.headsLast then first.getLast? else header.headsLast) =
        restart header.headsLast second.head? first.getLast? := by
      rw [represents.headsLast_eq]
      cases second with
      | nil => simp [restart]
      | cons next rest =>
        have differs : some entry ≠ (first ++ entry :: next :: rest).getLast? := by
          intro same
          have last : (next :: rest).getLast? = some entry := by
            rw [same]
            simp [List.getLast?_append, List.getLast?_cons]
          have twice := (List.nodup_cons.mp (List.nodup_middle.mp represents.nodup)).1
          exact twice (List.mem_append_right first (List.mem_of_getLast? last))
        simp only [if_neg differs, List.head?_cons, restart]
    rw [atHead, atTail]
    cases first.getLast? <;> cases second.head? <;> rfl
  rw [same]
  exact unlink_represents first second represents

theorem popEntryLeft_represents (represents : header.Represents (entry :: list)) :
    header.popEntryLeft.2 = some entry ∧ header.popEntryLeft.1.Represents list := by
  have unlinked := unlink_represents [] list represents
  have next : header.next entry = list.head? := by simpa using represents.forward.2.start_eq
  have same : header.popEntryLeft = (header.unlink none list.head?, some entry) := by
    rw [popEntryLeft, represents.headsNext_eq, List.head?_cons]
    dsimp only
    rw [next]
    cases list.head? <;> rfl
  rw [same]
  exact ⟨rfl, unlinked⟩

theorem popEntryRight_represents (represents : header.Represents (list ++ [entry])) :
    header.popEntryRight.2 = some entry ∧ header.popEntryRight.1.Represents list := by
  have unlinked := unlink_represents list [] represents
  have last : header.last entry = list.getLast? := represents.last_eq
  have same : header.popEntryRight = (header.unlink list.getLast? none, some entry) := by
    rw [popEntryRight, represents.headsLast_eq, List.getLast?_append, List.getLast?_singleton, Option.some_or]
    dsimp only
    rw [last]
    cases list.getLast? <;> rfl
  rw [same]
  rw [List.append_nil] at unlinked
  exact ⟨rfl, unlinked⟩

omit [DecidableEq P] in
theorem walk_eq {start : Option P} (path : Path header.next start list none) (ulIndex : Nat) :
    header.walk ulIndex start = list[ulIndex]? := by
  induction ulIndex generalizing start list with
  | zero =>
    rw [walk, path.start_eq, Option.or_none, List.head?_eq_getElem?]
  | succ ulIndex ih =>
    cases list with
    | nil =>
      cases path
      rfl
    | cons p rest =>
      obtain ⟨rfl, later⟩ := path
      rw [walk, ih later, List.getElem?_cons_succ]

omit [DecidableEq P] in
theorem Represents.getEntryByIndex_eq (represents : header.Represents list) (ulIndex : Nat) :
    header.getEntryByIndex ulIndex = list[ulIndex]? :=
  walk_eq represents.forward ulIndex

theorem pushEntryAtIndex_represents (represents : header.Represents list) {ulIndex : Nat} (positive : 0 < ulIndex)
    (inside : ulIndex ≤ list.length) (fresh : entry ∉ list) (room : list.length < 65535) :
    ∃ next, header.pushEntryAtIndex entry ulIndex = some next ∧
      next.Represents (list.take ulIndex ++ entry :: list.drop ulIndex) := by
  have split := List.take_append_drop ulIndex list
  have linked := linkBetween_represents (list.take ulIndex) (list.drop ulIndex)
    (by rwa [split]) (by rwa [split]) (by rwa [split])
  refine ⟨_, ?_, linked⟩
  have depth := represents.depth
  rw [pushEntryAtIndex, if_neg (by omega), if_neg (by omega)]
  by_cases atEnd : ulIndex = header.depth
  · rw [if_pos atEnd, represents.headsLast_eq, List.take_of_length_le (by omega), List.drop_of_length_le (by omega)]
    rfl
  · have position : ulIndex - 1 < list.length := by omega
    have behind : list.drop (ulIndex - 1) = list[ulIndex - 1] :: list.drop ulIndex := by
      rw [List.drop_eq_getElem_cons position, Nat.sub_add_cancel positive]
    have next : header.next list[ulIndex - 1] = (list.drop ulIndex).head? := by
      have cut := List.take_append_drop (ulIndex - 1) list
      rw [behind] at cut
      have whole := represents
      rw [← cut] at whole
      exact whole.next_eq
    have last : (list.take ulIndex).getLast? = some list[ulIndex - 1] := by
      rw [List.getLast?_take, if_neg (by omega), List.getElem?_eq_getElem position, Option.some_or]
    rw [if_neg atEnd, represents.getEntryByIndex_eq, List.getElem?_eq_getElem position, last]
    dsimp only
    rw [next]

end DList

end Representation

section Runs

inductive DListOp (P : Type)
  | pushEntryLeft (entry : P)
  | pushEntryRight (entry : P)
  | pushEntryAtIndex (entry : P) (ulIndex : Nat)
  | pushEntryLeftFixNumber (entry : P) (max : Nat)
  | popEntryLeft
  | popEntryRight
  | popEntryByLink (entry : P)
  | popEntryByIndex (ulIndex : Nat)
  | getEntryByIndex (ulIndex : Nat)
  | getHeadEntryLeft
  | getHeadEntryRight
  | queryDepth
  deriving DecidableEq

inductive Answer (P : Type)
  | nothing
  | link (entry : Option P)
  | done (result : Bool)
  | count (depth : Nat)
  deriving DecidableEq

variable {P : Type} [DecidableEq P]

def DList.step (header : DList P) : DListOp P → Option (DList P × Answer P)
  | .pushEntryLeft entry => some (header.pushEntryLeft entry, .nothing)
  | .pushEntryRight entry => some (header.pushEntryRight entry, .nothing)
  | .pushEntryAtIndex entry ulIndex => (header.pushEntryAtIndex entry ulIndex).map (·, .nothing)
  | .pushEntryLeftFixNumber entry max =>
    let (next, popped) := header.pushEntryLeftFixNumber entry max
    some (next, .link popped)
  | .popEntryLeft => some (header.popEntryLeft.1, .link header.popEntryLeft.2)
  | .popEntryRight => some (header.popEntryRight.1, .link header.popEntryRight.2)
  | .popEntryByLink entry => some (header.popEntryByLink entry, .done true)
  | .popEntryByIndex ulIndex => some ((header.popEntryByIndex ulIndex).1, .link (header.popEntryByIndex ulIndex).2)
  | .getEntryByIndex ulIndex => some (header, .link (header.getEntryByIndex ulIndex))
  | .getHeadEntryLeft => some (header, .link header.headsNext)
  | .getHeadEntryRight => some (header, .link header.headsLast)
  | .queryDepth => some (header, .count header.depth)

def insertClamped (list : List P) (entry : P) (ulIndex : Nat) : List P :=
  list.take ulIndex ++ entry :: list.drop ulIndex

def insertInside (list : List P) (entry : P) (ulIndex : Nat) : List P :=
  if ulIndex ≤ list.length then insertClamped list entry ulIndex else list

def listStep (insertAt : List P → P → Nat → List P) (list : List P) : DListOp P → List P × Answer P
  | .pushEntryLeft entry => (entry :: list, .nothing)
  | .pushEntryRight entry => (list ++ [entry], .nothing)
  | .pushEntryAtIndex entry ulIndex => (insertAt list entry ulIndex, .nothing)
  | .pushEntryLeftFixNumber entry max =>
    if list.length + 1 > max then ((entry :: list).dropLast, .link (entry :: list).getLast?)
    else (entry :: list, .link none)
  | .popEntryLeft => (list.tail, .link list.head?)
  | .popEntryRight => (list.dropLast, .link list.getLast?)
  | .popEntryByLink entry => (list.erase entry, .done true)
  | .popEntryByIndex ulIndex => (list.eraseIdx ulIndex, .link list[ulIndex]?)
  | .getEntryByIndex ulIndex => (list, .link list[ulIndex]?)
  | .getHeadEntryLeft => (list, .link list.head?)
  | .getHeadEntryRight => (list, .link list.getLast?)
  | .queryDepth => (list, .count list.length)

def Pushable (list : List P) (entry : P) : Prop := entry ∉ list ∧ list.length < 65535

instance (list : List P) (entry : P) : Decidable (Pushable list entry) := inferInstanceAs (Decidable (_ ∧ _))

def DListOp.Keeps (list : List P) : DListOp P → Prop
  | .pushEntryLeft entry | .pushEntryRight entry | .pushEntryAtIndex entry _ | .pushEntryLeftFixNumber entry _ =>
    Pushable list entry
  | .popEntryByLink entry => entry ∈ list
  | _ => True

instance (list : List P) : (op : DListOp P) → Decidable (op.Keeps list)
  | .pushEntryLeft entry | .pushEntryRight entry | .pushEntryAtIndex entry _ | .pushEntryLeftFixNumber entry _ =>
    inferInstanceAs (Decidable (Pushable list entry))
  | .popEntryByLink entry => inferInstanceAs (Decidable (entry ∈ list))
  | .popEntryLeft | .popEntryRight | .popEntryByIndex _ | .getEntryByIndex _ | .getHeadEntryLeft
  | .getHeadEntryRight | .queryDepth => inferInstanceAs (Decidable True)

def DListOp.atFront : DListOp P → Bool
  | .pushEntryAtIndex _ 0 => true
  | _ => false

namespace DList

variable {header : DList P} {list : List P}

theorem step_popEntryRight (represents : header.Represents list) :
    header.popEntryRight.2 = list.getLast? ∧ header.popEntryRight.1.Represents list.dropLast := by
  rcases List.eq_nil_or_concat list with rfl | ⟨front, tail, rfl⟩
  · have none := represents.headsLast_eq
    simp only [popEntryRight, none, List.getLast?_nil, List.dropLast_nil]
    exact ⟨trivial, represents⟩
  · rw [List.concat_eq_append] at represents ⊢
    simpa using popEntryRight_represents represents

theorem step_refines (represents : header.Represents list) {op : DListOp P} (keeps : op.Keeps list)
    (behind : op.atFront = false) :
    ∃ next, header.step op = some (next, (listStep insertInside list op).2) ∧
      next.Represents (listStep insertInside list op).1 := by
  cases op with
  | pushEntryLeft entry => exact ⟨_, rfl, pushEntryLeft_represents represents keeps.1 keeps.2⟩
  | pushEntryRight entry => exact ⟨_, rfl, pushEntryRight_represents represents keeps.1 keeps.2⟩
  | pushEntryAtIndex entry ulIndex =>
    have positive : 0 < ulIndex := by
      cases ulIndex with
      | zero => cases behind
      | succ n => omega
    simp only [step, listStep, insertInside]
    by_cases inside : ulIndex ≤ list.length
    · obtain ⟨next, pushed, represented⟩ :=
        pushEntryAtIndex_represents represents positive inside keeps.1 keeps.2
      rw [pushed, if_pos inside]
      exact ⟨next, rfl, represented⟩
    · have outside : ulIndex > header.depth := by
        rw [represents.depth]
        omega
      rw [pushEntryAtIndex, if_pos outside, if_neg inside]
      exact ⟨header, rfl, represents⟩
  | pushEntryLeftFixNumber entry max =>
    have pushed := pushEntryLeft_represents represents keeps.1 keeps.2
    simp only [step, listStep, pushEntryLeftFixNumber, pushed.depth, List.length_cons]
    split_ifs
    · obtain ⟨popped, represented⟩ := step_popEntryRight pushed
      exact ⟨_, by rw [popped], represented⟩
    · exact ⟨_, rfl, pushed⟩
  | popEntryLeft =>
    simp only [step, listStep]
    cases list with
    | nil =>
      have none := represents.headsNext_eq
      simp only [popEntryLeft, none, List.head?_nil, List.tail_nil]
      exact ⟨_, rfl, represents⟩
    | cons entry rest =>
      obtain ⟨popped, represented⟩ := popEntryLeft_represents represents
      exact ⟨_, by rw [popped]; rfl, represented⟩
  | popEntryRight =>
    obtain ⟨popped, represented⟩ := step_popEntryRight represents
    exact ⟨_, by rw [step, popped]; rfl, represented⟩
  | popEntryByLink entry =>
    obtain ⟨first, second, -, whole, erased⟩ := List.exists_erase_eq keeps
    rw [whole] at represents
    refine ⟨_, rfl, ?_⟩
    rw [listStep, erased]
    exact popEntryByLink_represents represents
  | popEntryByIndex ulIndex =>
    simp only [step, listStep, popEntryByIndex, represents.getEntryByIndex_eq]
    cases found : list[ulIndex]? with
    | none =>
      rw [List.eraseIdx_of_length_le (List.getElem?_eq_none_iff.mp found)]
      exact ⟨_, rfl, represents⟩
    | some entry =>
      obtain ⟨position, isEntry⟩ := List.getElem?_eq_some_iff.mp found
      have whole := List.take_append_drop ulIndex list
      rw [List.drop_eq_getElem_cons position, isEntry] at whole
      rw [← whole] at represents
      refine ⟨_, rfl, ?_⟩
      rw [List.eraseIdx_eq_take_drop_succ]
      exact popEntryByLink_represents represents
  | getEntryByIndex ulIndex => exact ⟨header, by rw [step, represents.getEntryByIndex_eq]; rfl, represents⟩
  | getHeadEntryLeft => exact ⟨header, by rw [step, represents.headsNext_eq]; rfl, represents⟩
  | getHeadEntryRight => exact ⟨header, by rw [step, represents.headsLast_eq]; rfl, represents⟩
  | queryDepth => exact ⟨header, by rw [step, represents.depth]; rfl, represents⟩

theorem dlist_refines_list (header : DList P) (ops : List (DListOp P))
    (keeps : AllowedRun (listStep insertInside) (fun list op => op.Keeps list ∧ op.atFront = false) [] ops) :
    ∃ final, answerAll step header.initializeHeader ops = some (final, (specAll (listStep insertInside) [] ops).2) ∧
      final.Represents (specAll (listStep insertInside) [] ops).1 :=
  answerAll_refines (fun _ _ _ represents allowed => step_refines represents allowed.1 allowed.2)
    (initializeHeader_represents header) ops keeps

def emptyHeader : DList Nat := ⟨fun _ => none, fun _ => none, none, none, 0⟩

theorem dlist_refines_list_pushes_and_pops :
    ∃ final, answerAll step emptyHeader.initializeHeader
        [.pushEntryRight 1, .pushEntryRight 2, .pushEntryAtIndex 3 1, .pushEntryAtIndex 4 9, .popEntryByLink 1,
          .popEntryRight] =
        some (final, [.nothing, .nothing, .nothing, .nothing, .done true, .link (some 2)]) ∧
      final.Represents [3] :=
  dlist_refines_list emptyHeader _ (by decide)

theorem pushEntryAtIndex_not_clamped :
    ¬ ∀ (header : DList Nat) (ops : List (DListOp Nat)),
      AllowedRun (listStep insertClamped) (fun list op => op.Keeps list) [] ops →
      ∃ final, answerAll step header.initializeHeader ops =
          some (final, (specAll (listStep insertClamped) [] ops).2) ∧
        final.Represents (specAll (listStep insertClamped) [] ops).1 := by
  intro claimed
  obtain ⟨final, ran, represents⟩ := claimed emptyHeader [.pushEntryAtIndex 7 1] (by decide)
  have unchanged : final.depth = 0 := by
    have stays : answerAll step emptyHeader.initializeHeader [.pushEntryAtIndex 7 1] =
        some (emptyHeader.initializeHeader, [.nothing]) := rfl
    rw [stays] at ran
    obtain ⟨rfl, -⟩ := Prod.mk.inj (Option.some.inj ran)
    rfl
  have depth := represents.depth
  rw [unchanged] at depth
  exact absurd depth (by decide)

end DList

end Runs

end CcspCommon.AnscPlatform
