import CcspCommon.AnscPlatform.DList

set_option autoImplicit false

namespace CcspCommon.AnscPlatform

open CcspCommon.Shared

section Model

-- `QUEUE_HEADER` together with the links of all entries. The link `Next` of the header is an entry too: its
-- address is `head`.
structure Queue (P : Type) where
  next : P → Option P
  head : P
  depth : Nat
  last : Option P

variable {P : Type} [DecidableEq P]

namespace Queue

def setNext (queue : Queue P) (entry : P) (value : Option P) : Queue P :=
  { queue with next := Function.update queue.next entry value }

def initializeHeader (queue : Queue P) : Queue P :=
  { queue.setNext queue.head none with depth := 0, last := none }

def pushEntry (queue : Queue P) (entry : P) : Queue P :=
  let lastEntry := queue.last
  let queue := queue.setNext entry none
  let queue := match lastEntry with
    | none => queue.setNext queue.head (some entry)
    | some last => queue.setNext last (some entry)
  { queue with last := some entry, depth := ushort (queue.depth + 1) }

def pushEntryAtFront (queue : Queue P) (entry : P) : Queue P :=
  let queue := queue.setNext entry (queue.next queue.head)
  let queue := queue.setNext queue.head (some entry)
  { queue with
    last := if queue.last = none then some entry else queue.last
    depth := ushort (queue.depth + 1) }

def popEntry (queue : Queue P) : Queue P × Option P :=
  match queue.next queue.head with
  | none => (queue, none)
  | some first =>
    let queue := queue.setNext queue.head (queue.next first)
    ({ queue with
      depth := ushort (queue.depth + 65535)
      last := if queue.next first = none then none else queue.last }, some first)

def steps : Nat := 65537

def findLink (queue : Queue P) (target : Option P) : Nat → Option P → Option (Option P)
  | 0, _ => none
  | _ + 1, none => some none
  | fuel + 1, some nextEntry =>
    if queue.next nextEntry = target then some (some nextEntry)
    else queue.findLink target fuel (queue.next nextEntry)

def popEntryByLink (queue : Queue P) (entry : P) : Option (Queue P × Bool) := do
  let nextEntry ← queue.findLink (some entry) steps (some queue.head)
  let (queue, bFound) := match nextEntry with
    | some found =>
      let queue := queue.setNext found (queue.next entry)
      ({ queue with depth := ushort (queue.depth + 65535) }, true)
    | none => (queue, false)
  let last :=
    if queue.last = some entry then
      if queue.next queue.head = none then none else nextEntry
    else queue.last
  some ({ queue with last := last }, bFound)

def moveEntryToStart (queue : Queue P) (entry : P) : Option (Queue P) := do
  let (queue, _) ← queue.popEntryByLink entry
  some (queue.pushEntryAtFront entry)

def moveEntryToEnd (queue : Queue P) (entry : P) : Option (Queue P) := do
  let (queue, _) ← queue.popEntryByLink entry
  some (queue.pushEntry entry)

def searchFrom (queue : Queue P) : Nat → P → Option P
  | 0, nextEntry => queue.next nextEntry
  | index + 1, nextEntry =>
    match queue.next nextEntry with
    | none => none
    | some entry => queue.searchFrom index entry

def searchEntryByIndex (queue : Queue P) (index : Nat) : Option P := queue.searchFrom index queue.head

def popEntryByIndex (queue : Queue P) (index : Nat) : Option (Queue P × Option P) :=
  match queue.searchEntryByIndex index with
  | none => some (queue, none)
  | some entry => do
    let (queue, _) ← queue.popEntryByLink entry
    some (queue, some entry)

def pushEntryFixNumber (queue : Queue P) (entry : P) (max : Nat) : Queue P × Option P :=
  let queue := queue.pushEntry entry
  if queue.depth > max then queue.popEntry else (queue, none)

def pushEntryBefore (queue : Queue P) (entry : P) (beforeEntry : Option P) : Option (Queue P × Bool) :=
  if queue.next queue.head = none then
    -- `bFound` stays FALSE
    let queue := queue.setNext queue.head (some entry)
    let queue := { queue with last := some entry }
    let queue := queue.setNext entry none
    some ({ queue with depth := ushort (queue.depth + 1) }, false)
  else do
    match ← queue.findLink beforeEntry steps (some queue.head) with
    | none => some (queue, false)
    | some lastEntry =>
      let queue := queue.setNext lastEntry (some entry)
      let queue := queue.setNext entry beforeEntry
      some ({ queue with
        depth := ushort (queue.depth + 1)
        last := if beforeEntry = none then some entry else queue.last }, true)

def pushEntryAfter (queue : Queue P) (entry : P) (afterEntry : Option P) : Queue P :=
  match afterEntry with
  | none => queue.pushEntryAtFront entry
  | some after =>
    let queue := queue.setNext entry (queue.next after)
    let queue := queue.setNext after (some entry)
    { queue with
      last := if queue.last = some after then some entry else queue.last
      depth := ushort (queue.depth + 1) }

end Queue

end Model

section Representation

variable {P : Type}

namespace Queue

structure Represents (queue : Queue P) (list : List P) : Prop where
  nodup : (queue.head :: list).Nodup
  chain : Path queue.next (some queue.head) (queue.head :: list) none
  last : queue.last = list.getLast?
  depth : queue.depth = list.length
  bounded : list.length ≤ 65535

variable {queue : Queue P} {list : List P} {entry : P}

theorem Represents.first_eq (represents : queue.Represents list) : queue.next queue.head = list.head? := by
  simpa using represents.chain.2.start_eq

theorem Represents.next_eq {first second : List P} (represents : queue.Represents (first ++ entry :: second)) :
    queue.next entry = second.head? :=
  represents.chain.2.next_eq

theorem Represents.last_iff {first second : List P} (represents : queue.Represents (first ++ entry :: second)) :
    queue.last = some entry ↔ second = [] := by
  rw [represents.last]
  constructor
  · intro isLast
    by_contra some
    have ends : second.getLast? = Option.some entry := by
      rw [← isLast, List.getLast?_append, List.getLast?_cons]
      cases second with
      | nil => exact absurd rfl some
      | cons p rest => simp [List.getLast?_cons]
    have twice := (List.nodup_cons.mp (List.nodup_middle.mp (List.nodup_cons.mp represents.nodup).2)).1
    exact twice (List.mem_append_right first (List.mem_of_getLast? ends))
  · rintro rfl
    simp

variable [DecidableEq P]

theorem initializeHeader_represents (queue : Queue P) : queue.initializeHeader.Represents [] :=
  ⟨by simp, ⟨rfl, Function.update_self _ _ _⟩, rfl, rfl, Nat.zero_le _⟩

def linkAfter (queue : Queue P) (previous entry : P) (nextEntry : Option P) : Queue P :=
  { queue with
    next := Function.update (Function.update queue.next entry nextEntry) previous (some entry)
    last := if nextEntry = none then some entry else queue.last
    depth := ushort (queue.depth + 1) }

theorem linkAfter_represents (first second : List P) (represents : queue.Represents (first ++ second))
    (fresh : entry ∉ queue.head :: (first ++ second)) (room : (first ++ second).length < 65535) :
    (queue.linkAfter (first.getLast?.getD queue.head) entry second.head?).Represents (first ++ entry :: second) := by
  obtain ⟨nodup, chain, last, depth, -⟩ := represents
  have length : (first ++ entry :: second).length = (first ++ second).length + 1 := by simp; omega
  have behindHead : Path queue.next (some queue.head) ((queue.head :: first) ++ second) none := chain
  have inserted := behindHead.insert nodup fresh
  rw [List.getLast?_cons, Option.or_none] at inserted
  constructor
  next =>
    have whole : queue.head :: (first ++ entry :: second) = (queue.head :: first) ++ entry :: second := rfl
    change (queue.head :: (first ++ entry :: second)).Nodup
    rw [whole, List.nodup_middle, List.nodup_cons]
    exact ⟨fresh, nodup⟩
  next => exact inserted
  next =>
    cases second with
    | nil => simp [linkAfter]
    | cons p rest => simp [linkAfter, last, List.getLast?_append, List.getLast?_cons]
  next =>
    change ushort (queue.depth + 1) = _
    rw [length, depth, ushort, Nat.mod_eq_of_lt (by omega)]
  next => omega

def unlinkAfter (queue : Queue P) (previous : P) (nextEntry lastEntry : Option P) : Queue P :=
  { queue with
    next := Function.update queue.next previous nextEntry
    last := lastEntry
    depth := ushort (queue.depth + 65535) }

theorem unlinkAfter_represents (first second : List P) (represents : queue.Represents (first ++ entry :: second)) :
    (queue.unlinkAfter (first.getLast?.getD queue.head) second.head? (first ++ second).getLast?).Represents
      (first ++ second) := by
  have nextEntry := represents.next_eq
  obtain ⟨nodup, chain, -, depth, bounded⟩ := represents
  have length : (first ++ entry :: second).length = (first ++ second).length + 1 := by simp; omega
  have behindHead : Path queue.next (some queue.head) ((queue.head :: first) ++ entry :: second) none := chain
  have removed := behindHead.remove nodup
  rw [List.getLast?_cons, nextEntry] at removed
  constructor
  next =>
    have whole : queue.head :: (first ++ entry :: second) = (queue.head :: first) ++ entry :: second := rfl
    rw [whole, List.nodup_middle, List.nodup_cons] at nodup
    exact nodup.2
  next => exact removed
  next => rfl
  next =>
    change ushort (queue.depth + 65535) = _
    rw [depth, length, ushort]
    omega
  next => omega

theorem pushEntry_represents (represents : queue.Represents list) (fresh : entry ∉ queue.head :: list)
    (room : list.length < 65535) : (queue.pushEntry entry).Represents (list ++ [entry]) := by
  have linked := linkAfter_represents list [] (by simpa using represents) (by simpa using fresh)
    (by simpa using room)
  have same : queue.pushEntry entry = queue.linkAfter (list.getLast?.getD queue.head) entry none := by
    rw [pushEntry, represents.last]
    cases list.getLast? <;> rfl
  rw [same]
  exact linked

theorem pushEntryAtFront_represents (represents : queue.Represents list) (fresh : entry ∉ queue.head :: list)
    (room : list.length < 65535) : (queue.pushEntryAtFront entry).Represents (entry :: list) := by
  have linked := linkAfter_represents [] list represents fresh room
  have same : queue.pushEntryAtFront entry = queue.linkAfter queue.head entry list.head? := by
    rw [pushEntryAtFront, represents.first_eq]
    have empty : queue.last = none ↔ list.head? = none := by
      rw [represents.last]
      simp
    simp only [setNext, linkAfter, empty]
  rw [same]
  exact linked

theorem popEntry_represents (represents : queue.Represents (entry :: list)) :
    queue.popEntry.2 = some entry ∧ queue.popEntry.1.Represents list := by
  have unlinked := unlinkAfter_represents [] list represents
  have next : queue.next entry = list.head? := by simpa using represents.chain.2.2.start_eq
  have isLast : queue.last = (entry :: list).getLast? := represents.last
  have differs : entry ≠ queue.head := by
    rintro rfl
    exact absurd represents.nodup (by simp)
  have same : queue.popEntry = (queue.unlinkAfter queue.head list.head? list.getLast?, some entry) := by
    rw [popEntry, represents.first_eq, List.head?_cons]
    simp only [setNext, unlinkAfter, next, Function.update_of_ne differs, isLast]
    cases list with
    | nil => rfl
    | cons p rest => simp [List.getLast?_cons]
  rw [same]
  exact ⟨rfl, unlinked⟩

theorem findLink_eq {previous : P} {target : Option P}
    (path : Path queue.next (some previous) (previous :: list) target)
    (before : ∀ p ∈ list, some p ≠ target) {fuel : Nat} (enough : list.length < fuel) :
    queue.findLink target fuel (some previous) = some (some (list.getLast?.getD previous)) := by
  induction list generalizing previous fuel with
  | nil =>
    obtain ⟨fuel, rfl⟩ := Nat.exists_eq_succ_of_ne_zero (Nat.ne_of_gt enough)
    have points : queue.next previous = target := path.2
    rw [findLink, if_pos points]
    rfl
  | cons p rest ih =>
    obtain ⟨fuel, rfl⟩ := Nat.exists_eq_succ_of_ne_zero (Nat.ne_of_gt (Nat.zero_lt_of_lt enough))
    obtain ⟨-, points, later⟩ := path
    have passed : queue.next previous ≠ target := by
      rw [points]
      exact before p List.mem_cons_self
    rw [findLink, if_neg passed, points, ih ⟨rfl, later⟩ (fun q member => before q (List.mem_cons_of_mem p member))
      (by simpa using enough), List.getLast?_cons]
    rfl

theorem findLink_absent {previous : P} {target : P} (path : Path queue.next (some previous) (previous :: list) none)
    (absent : target ∉ list) {fuel : Nat} (enough : list.length + 1 < fuel) :
    queue.findLink (some target) fuel (some previous) = some none := by
  induction list generalizing previous fuel with
  | nil =>
    obtain ⟨fuel, rfl⟩ : ∃ less, fuel = less + 2 := ⟨fuel - 2, by simp at enough; omega⟩
    have ends : queue.next previous = none := path.2
    simp [findLink, ends]
  | cons p rest ih =>
    obtain ⟨fuel, rfl⟩ := Nat.exists_eq_succ_of_ne_zero (Nat.ne_of_gt (Nat.zero_lt_of_lt enough))
    obtain ⟨-, points, later⟩ := path
    have passed : queue.next previous ≠ some target := by
      rw [points]
      rintro same
      exact absent (by simp [Option.some.inj same])
    rw [findLink, if_neg passed, points, ih ⟨rfl, later⟩ (fun member => absent (List.mem_cons_of_mem p member))
      (by simpa using enough)]

theorem popEntryByLink_represents {first second : List P}
    (represents : queue.Represents (first ++ entry :: second)) :
    ∃ next, queue.popEntryByLink entry = some (next, true) ∧ next.Represents (first ++ second) ∧
      next.head = queue.head := by
  refine ⟨_, ?_, unlinkAfter_represents first second represents, rfl⟩
  have behindHead : Path queue.next (some queue.head) ((queue.head :: first) ++ entry :: second) none :=
    represents.chain
  obtain ⟨middle, before, isEntry, -⟩ := path_append.mp behindHead
  subst isEntry
  have twice := (List.nodup_cons.mp (List.nodup_middle.mp (List.nodup_cons.mp represents.nodup).2)).1
  have found : queue.findLink (some entry) steps (some queue.head) = some (some (first.getLast?.getD queue.head)) := by
    refine findLink_eq before ?_ ?_
    · intro p member same
      exact twice (List.mem_append_left second (Option.some.inj same ▸ member))
    · have bounded := represents.bounded
      rw [List.length_append, List.length_cons] at bounded
      rw [steps]
      omega
  have last : (if queue.last = some entry then
        if Function.update queue.next (first.getLast?.getD queue.head) second.head? queue.head = none then none
        else some (first.getLast?.getD queue.head)
      else queue.last) = (first ++ second).getLast? := by
    by_cases atEnd : second = []
    · rw [if_pos (represents.last_iff.mpr atEnd), atEnd, List.append_nil]
      cases first with
      | nil => simp
      | cons p rest =>
        have first := represents.first_eq
        have differs : queue.head ≠ (p :: rest).getLast?.getD queue.head := by
          rw [List.getLast?_cons, Option.getD_some]
          intro same
          have member : queue.head ∈ p :: rest := List.mem_of_getLast? (by rw [List.getLast?_cons, ← same])
          exact (List.nodup_cons.mp represents.nodup).1 (List.mem_append_left _ member)
        rw [Function.update_of_ne differs, first, if_neg (by simp), List.getLast?_cons, Option.getD_some]
    · rw [if_neg (fun isLast => atEnd (represents.last_iff.mp isLast)), represents.last]
      cases second with
      | nil => exact absurd rfl atEnd
      | cons p rest => simp [List.getLast?_append, List.getLast?_cons]
  rw [popEntryByLink, found, represents.next_eq, ← last]
  rfl

theorem Represents.findLink_absent (represents : queue.Represents list) (absent : entry ∉ list) :
    queue.findLink (some entry) steps (some queue.head) = some none := by
  have bounded := represents.bounded
  exact Queue.findLink_absent represents.chain absent (by rw [steps]; omega)

theorem popEntryByLink_absent (represents : queue.Represents list) (absent : entry ∉ list) :
    queue.popEntryByLink entry = some (queue, false) := by
  have missing := represents.findLink_absent absent
  have notLast : queue.last ≠ some entry := by
    rw [represents.last]
    exact fun isLast => absent (List.mem_of_getLast? isLast)
  rw [popEntryByLink, missing]
  simp [notLast]

omit [DecidableEq P] in
theorem searchFrom_eq {previous : P} (path : Path queue.next (some previous) (previous :: list) none) (index : Nat) :
    queue.searchFrom index previous = list[index]? := by
  induction index generalizing previous list with
  | zero =>
    have first := path.2.start_eq
    rw [searchFrom, first, Option.or_none, List.head?_eq_getElem?]
  | succ index ih =>
    cases list with
    | nil =>
      have ends : queue.next previous = none := path.2
      simp [searchFrom, ends]
    | cons p rest =>
      obtain ⟨-, points, later⟩ := path
      rw [searchFrom, points, List.getElem?_cons_succ]
      exact ih ⟨rfl, later⟩

omit [DecidableEq P] in
theorem Represents.searchEntryByIndex_eq (represents : queue.Represents list) (index : Nat) :
    queue.searchEntryByIndex index = list[index]? :=
  searchFrom_eq represents.chain index

theorem pushEntryAfter_represents {first second : List P} {after : P}
    (represents : queue.Represents (first ++ after :: second))
    (fresh : entry ∉ queue.head :: (first ++ after :: second))
    (room : (first ++ after :: second).length < 65535) :
    (queue.pushEntryAfter entry (some after)).Represents (first ++ after :: entry :: second) := by
  have split : first ++ after :: second = (first ++ [after]) ++ second := by simp
  have isLast := represents.last_iff
  have nextEntry := represents.next_eq
  rw [split] at represents fresh room
  have linked := linkAfter_represents (first ++ [after]) second represents fresh room
  rw [List.getLast?_append, List.getLast?_singleton, Option.some_or, Option.getD_some] at linked
  have empty : second = [] ↔ second.head? = none := by simp
  have same : queue.pushEntryAfter entry (some after) = queue.linkAfter after entry second.head? := by
    simp only [pushEntryAfter, setNext, linkAfter, nextEntry, isLast, empty]
  rw [same]
  simpa using linked

theorem pushEntryBefore_represents (first second : List P) (represents : queue.Represents (first ++ second))
    (some : first ++ second ≠ []) (before : ∀ p ∈ first, Option.some p ≠ second.head?)
    (fresh : entry ∉ queue.head :: (first ++ second)) (room : (first ++ second).length < 65535) :
    ∃ next, queue.pushEntryBefore entry second.head? = Option.some (next, true) ∧
      next.Represents (first ++ entry :: second) ∧ next.head = queue.head := by
  refine ⟨_, ?_, linkAfter_represents first second represents fresh room, rfl⟩
  have nonempty : queue.next queue.head ≠ none := by
    rw [represents.first_eq]
    simpa using some
  have behindHead : Path queue.next (Option.some queue.head) ((queue.head :: first) ++ second) none := represents.chain
  obtain ⟨middle, path, rest⟩ := path_append.mp behindHead
  have middleEq := rest.start_eq
  rw [Option.or_none] at middleEq
  subst middleEq
  have found : queue.findLink second.head? steps (Option.some queue.head) =
      Option.some (Option.some (first.getLast?.getD queue.head)) := by
    apply findLink_eq path before
    rw [List.length_append] at room
    rw [steps]
    omega
  have differs : first.getLast?.getD queue.head ≠ entry := by
    intro same
    cases isLast : first.getLast? with
    | none => exact fresh (by simp [← same, isLast])
    | some last =>
      have member := List.mem_of_getLast? isLast
      rw [isLast, Option.getD_some] at same
      exact fresh (by simp [← same, member])
  rw [pushEntryBefore, if_neg nonempty, found]
  simp only [Option.bind_eq_bind, Option.bind_some, setNext, linkAfter, Function.update_comm differs]

theorem pushEntryBefore_absent (represents : queue.Represents list) (some : list ≠ []) {before : P}
    (absent : before ∉ list) : queue.pushEntryBefore entry (Option.some before) = Option.some (queue, false) := by
  have missing := represents.findLink_absent absent
  have nonempty : queue.next queue.head ≠ none := by
    rw [represents.first_eq]
    simpa using some
  rw [pushEntryBefore, if_neg nonempty, missing]
  rfl

end Queue

end Representation

section Runs

inductive QueueOp (P : Type)
  | pushEntry (entry : P)
  | pushEntryAtFront (entry : P)
  | pushEntryFixNumber (entry : P) (max : Nat)
  | pushEntryBefore (entry : P) (beforeEntry : Option P)
  | pushEntryAfter (entry : P) (afterEntry : Option P)
  | popEntry
  | popEntryByLink (entry : P)
  | popEntryByIndex (index : Nat)
  | moveEntryToStart (entry : P)
  | moveEntryToEnd (entry : P)
  | searchEntryByIndex (index : Nat)
  | getFirstEntry
  | getLastEntry
  | queryDepth
  deriving DecidableEq

variable {P : Type} [DecidableEq P]

def Queue.step (queue : Queue P) : QueueOp P → Option (Queue P × Answer P)
  | .pushEntry entry => some (queue.pushEntry entry, .nothing)
  | .pushEntryAtFront entry => some (queue.pushEntryAtFront entry, .nothing)
  | .pushEntryFixNumber entry max =>
    some ((queue.pushEntryFixNumber entry max).1, .link (queue.pushEntryFixNumber entry max).2)
  | .pushEntryBefore entry beforeEntry => do
    let (next, bFound) ← queue.pushEntryBefore entry beforeEntry
    some (next, .done bFound)
  | .pushEntryAfter entry afterEntry => some (queue.pushEntryAfter entry afterEntry, .nothing)
  | .popEntry => some (queue.popEntry.1, .link queue.popEntry.2)
  | .popEntryByLink entry => do
    let (next, bFound) ← queue.popEntryByLink entry
    some (next, .done bFound)
  | .popEntryByIndex index => do
    let (next, popped) ← queue.popEntryByIndex index
    some (next, .link popped)
  | .moveEntryToStart entry => do
    let next ← queue.moveEntryToStart entry
    some (next, .nothing)
  | .moveEntryToEnd entry => do
    let next ← queue.moveEntryToEnd entry
    some (next, .nothing)
  | .searchEntryByIndex index => some (queue, .link (queue.searchEntryByIndex index))
  | .getFirstEntry => some (queue, .link (queue.next queue.head))
  | .getLastEntry => some (queue, .link queue.last)
  | .queryDepth => some (queue, .count queue.depth)

def insertBefore (entry before : P) : List P → List P
  | [] => []
  | p :: rest => if p = before then entry :: p :: rest else p :: insertBefore entry before rest

def insertAfter (entry after : P) : List P → List P
  | [] => []
  | p :: rest => if p = after then p :: entry :: rest else p :: insertAfter entry after rest

def queueStep (list : List P) : QueueOp P → List P × Answer P
  | .pushEntry entry => (list ++ [entry], .nothing)
  | .pushEntryAtFront entry => (entry :: list, .nothing)
  | .pushEntryFixNumber entry max =>
    if list.length + 1 > max then ((list ++ [entry]).tail, .link (list ++ [entry]).head?)
    else (list ++ [entry], .link none)
  | .pushEntryBefore entry none => (list ++ [entry], .done true)
  | .pushEntryBefore entry (some before) => (insertBefore entry before list, .done (before ∈ list))
  | .pushEntryAfter entry none => (entry :: list, .nothing)
  | .pushEntryAfter entry (some after) => (insertAfter entry after list, .nothing)
  | .popEntry => (list.tail, .link list.head?)
  | .popEntryByLink entry => (list.erase entry, .done (entry ∈ list))
  | .popEntryByIndex index => (list.eraseIdx index, .link list[index]?)
  | .moveEntryToStart entry => (entry :: list.erase entry, .nothing)
  | .moveEntryToEnd entry => (list.erase entry ++ [entry], .nothing)
  | .searchEntryByIndex index => (list, .link list[index]?)
  | .getFirstEntry => (list, .link list.head?)
  | .getLastEntry => (list, .link list.getLast?)
  | .queryDepth => (list, .count list.length)

def Fresh (head : P) (list : List P) (entry : P) : Prop := entry ∉ head :: list ∧ list.length < 65535

instance (head : P) (list : List P) (entry : P) : Decidable (Fresh head list entry) :=
  inferInstanceAs (Decidable (_ ∧ _))

/-- What a caller keeps; a place before an entry is asked for only in a queue that has entries, and a
place behind a link only where that link is in the queue. -/
def QueueOp.Keeps (head : P) (list : List P) : QueueOp P → Prop
  | .pushEntry entry | .pushEntryAtFront entry | .pushEntryFixNumber entry _ => Fresh head list entry
  | .pushEntryBefore entry _ => Fresh head list entry ∧ list ≠ []
  | .pushEntryAfter entry after => Fresh head list entry ∧ ∀ link ∈ after, link ∈ list
  | .moveEntryToStart entry | .moveEntryToEnd entry => entry ∈ list ∨ Fresh head list entry
  | _ => True

theorem insertBefore_split (entry : P) {before : P} {first : List P} (absent : before ∉ first) (second : List P) :
    insertBefore entry before (first ++ before :: second) = first ++ entry :: before :: second := by
  induction first with
  | nil => simp [insertBefore]
  | cons p rest ih =>
    simp only [List.mem_cons, not_or] at absent
    simp [insertBefore, Ne.symm absent.1, ih absent.2]

theorem insertBefore_absent (entry : P) {before : P} {list : List P} (absent : before ∉ list) :
    insertBefore entry before list = list := by
  induction list with
  | nil => rfl
  | cons p rest ih =>
    simp only [List.mem_cons, not_or] at absent
    simp [insertBefore, Ne.symm absent.1, ih absent.2]

theorem insertAfter_split (entry : P) {after : P} {first : List P} (absent : after ∉ first) (second : List P) :
    insertAfter entry after (first ++ after :: second) = first ++ after :: entry :: second := by
  induction first with
  | nil => simp [insertAfter]
  | cons p rest ih =>
    simp only [List.mem_cons, not_or] at absent
    simp [insertAfter, Ne.symm absent.1, ih absent.2]

namespace Queue

variable {queue : Queue P} {list : List P}

theorem head_pushEntry (queue : Queue P) (entry : P) : (queue.pushEntry entry).head = queue.head := by
  rw [pushEntry]
  cases queue.last <;> rfl

theorem head_pushEntryAfter (queue : Queue P) (entry : P) (afterEntry : Option P) :
    (queue.pushEntryAfter entry afterEntry).head = queue.head := by
  cases afterEntry <;> rfl

theorem step_popEntry (represents : queue.Represents list) :
    queue.popEntry.2 = list.head? ∧ queue.popEntry.1.Represents list.tail ∧ queue.popEntry.1.head = queue.head := by
  cases list with
  | nil =>
    have none := represents.first_eq
    simp only [popEntry, none, List.head?_nil, List.tail_nil]
    exact ⟨trivial, represents, trivial⟩
  | cons entry rest =>
    obtain ⟨popped, represented⟩ := popEntry_represents represents
    refine ⟨popped, represented, ?_⟩
    simp [popEntry, represents.first_eq, setNext]

theorem step_popEntryByLink (represents : queue.Represents list) (entry : P) :
    ∃ next, queue.popEntryByLink entry = some (next, decide (entry ∈ list)) ∧ next.Represents (list.erase entry) ∧
      next.head = queue.head := by
  by_cases member : entry ∈ list
  · obtain ⟨first, second, -, whole, erased⟩ := List.exists_erase_eq member
    have split := represents
    rw [whole] at split
    rw [decide_eq_true member, erased]
    exact popEntryByLink_represents split
  · rw [decide_eq_false member, List.erase_of_not_mem member]
    exact ⟨queue, popEntryByLink_absent represents member, represents, rfl⟩

theorem moved_fresh (represents : queue.Represents list) {entry : P}
    (keeps : entry ∈ list ∨ Fresh queue.head list entry) : Fresh queue.head (list.erase entry) entry := by
  obtain ⟨headAbsent, nodup⟩ := List.nodup_cons.mp represents.nodup
  have shorter := list.length_erase_le (a := entry)
  rcases keeps with member | fresh
  · have bounded := represents.bounded
    have length := List.length_erase_of_mem member
    have positive := List.length_pos_of_mem member
    refine ⟨?_, by omega⟩
    rw [List.mem_cons, not_or]
    refine ⟨?_, nodup.not_mem_erase⟩
    rintro rfl
    exact headAbsent member
  · refine ⟨?_, by have := fresh.2; omega⟩
    rw [List.mem_cons, not_or]
    exact ⟨fun same => fresh.1 (by simp [same]), nodup.not_mem_erase⟩

theorem step_refines (represents : queue.Represents list) {op : QueueOp P} (keeps : op.Keeps queue.head list) :
    ∃ next, queue.step op = some (next, (queueStep list op).2) ∧ next.Represents (queueStep list op).1 ∧
      next.head = queue.head := by
  cases op with
  | pushEntry entry =>
    exact ⟨_, rfl, pushEntry_represents represents keeps.1 keeps.2, head_pushEntry queue entry⟩
  | pushEntryAtFront entry => exact ⟨_, rfl, pushEntryAtFront_represents represents keeps.1 keeps.2, rfl⟩
  | pushEntryFixNumber entry max =>
    have pushed := pushEntry_represents represents keeps.1 keeps.2
    have depth := pushed.depth
    rw [List.length_append, List.length_singleton] at depth
    simp only [step, queueStep, pushEntryFixNumber, depth]
    split_ifs
    · obtain ⟨popped, represented, head⟩ := step_popEntry pushed
      exact ⟨_, by rw [popped], represented, head.trans (head_pushEntry queue entry)⟩
    · exact ⟨_, rfl, pushed, head_pushEntry queue entry⟩
  | pushEntryBefore entry beforeEntry =>
    obtain ⟨⟨fresh, room⟩, nonempty⟩ := keeps
    cases beforeEntry with
    | none =>
      obtain ⟨next, pushed, represented, head⟩ := pushEntryBefore_represents list [] (by simpa using represents)
        (by simpa using nonempty) (by simp) (by simpa using fresh) (by simpa using room)
      rw [List.head?_nil] at pushed
      exact ⟨next, by rw [step, pushed]; rfl, represented, head⟩
    | some before =>
      by_cases member : before ∈ list
      · obtain ⟨first, second, rfl, absent⟩ := List.eq_append_cons_of_mem member
        have earlier : ∀ p ∈ first, some p ≠ (before :: second).head? := by
          intro p inFirst same
          exact absent (by rwa [← Option.some.inj same])
        obtain ⟨next, pushed, represented, head⟩ :=
          pushEntryBefore_represents first (before :: second) represents nonempty earlier fresh room
        rw [List.head?_cons] at pushed
        refine ⟨next, ?_, ?_, head⟩
        · rw [step, pushed, queueStep, decide_eq_true member]
          rfl
        · rw [queueStep, insertBefore_split entry absent]
          exact represented
      · refine ⟨queue, ?_, ?_, rfl⟩
        · rw [step, pushEntryBefore_absent represents nonempty member, queueStep, decide_eq_false member]
          rfl
        · rw [queueStep, insertBefore_absent entry member]
          exact represents
  | pushEntryAfter entry afterEntry =>
    obtain ⟨⟨fresh, room⟩, inQueue⟩ := keeps
    refine ⟨_, by cases afterEntry <;> rfl, ?_, head_pushEntryAfter queue entry afterEntry⟩
    cases afterEntry with
    | none => exact pushEntryAtFront_represents represents fresh room
    | some after =>
      obtain ⟨first, second, rfl, absent⟩ := List.eq_append_cons_of_mem (inQueue after rfl)
      rw [queueStep, insertAfter_split entry absent]
      exact pushEntryAfter_represents represents fresh room
  | popEntry =>
    obtain ⟨popped, represented, head⟩ := step_popEntry represents
    exact ⟨_, by rw [step, popped]; rfl, represented, head⟩
  | popEntryByLink entry =>
    obtain ⟨next, popped, represented, head⟩ := step_popEntryByLink represents entry
    exact ⟨next, by rw [step, popped]; rfl, represented, head⟩
  | popEntryByIndex index =>
    simp only [step, queueStep, popEntryByIndex, represents.searchEntryByIndex_eq]
    cases found : list[index]? with
    | none =>
      rw [List.eraseIdx_of_length_le (List.getElem?_eq_none_iff.mp found)]
      exact ⟨_, rfl, represents, rfl⟩
    | some entry =>
      obtain ⟨position, isEntry⟩ := List.getElem?_eq_some_iff.mp found
      have whole := List.take_append_drop index list
      rw [List.drop_eq_getElem_cons position, isEntry] at whole
      rw [← whole] at represents
      obtain ⟨next, popped, represented, head⟩ := popEntryByLink_represents represents
      refine ⟨next, by dsimp only; rw [popped]; rfl, ?_, head⟩
      rw [List.eraseIdx_eq_take_drop_succ]
      exact represented
  | moveEntryToStart entry =>
    have fresh := moved_fresh represents keeps
    obtain ⟨next, popped, represented, head⟩ := step_popEntryByLink represents entry
    rw [← head] at fresh
    refine ⟨next.pushEntryAtFront entry, ?_, pushEntryAtFront_represents represented fresh.1 fresh.2, head⟩
    rw [step, moveEntryToStart, popped]
    rfl
  | moveEntryToEnd entry =>
    have fresh := moved_fresh represents keeps
    obtain ⟨next, popped, represented, head⟩ := step_popEntryByLink represents entry
    rw [← head] at fresh
    refine ⟨next.pushEntry entry, ?_, pushEntry_represents represented fresh.1 fresh.2,
      (head_pushEntry next entry).trans head⟩
    rw [step, moveEntryToEnd, popped]
    rfl
  | searchEntryByIndex index =>
    exact ⟨queue, by rw [step, represents.searchEntryByIndex_eq]; rfl, represents, rfl⟩
  | getFirstEntry => exact ⟨queue, by rw [step, represents.first_eq]; rfl, represents, rfl⟩
  | getLastEntry => exact ⟨queue, by rw [step, represents.last]; rfl, represents, rfl⟩
  | queryDepth => exact ⟨queue, by rw [step, represents.depth]; rfl, represents, rfl⟩

theorem queue_refines_list (queue : Queue P) (ops : List (QueueOp P))
    (keeps : AllowedRun queueStep (fun list op => op.Keeps queue.head list) [] ops) :
    ∃ final, answerAll step queue.initializeHeader ops = some (final, (specAll queueStep [] ops).2) ∧
      final.Represents (specAll queueStep [] ops).1 := by
  have refines (current : Queue P) (list : List P) (op : QueueOp P)
      (represents : current.Represents list ∧ current.head = queue.head) (allowed : op.Keeps queue.head list) :
      ∃ next, current.step op = some (next, (queueStep list op).2) ∧
        next.Represents (queueStep list op).1 ∧ next.head = queue.head := by
    rw [← represents.2] at allowed ⊢
    exact step_refines represents.1 allowed
  obtain ⟨final, ran, represents, -⟩ :=
    answerAll_refines refines ⟨initializeHeader_represents queue, rfl⟩ ops keeps
  exact ⟨final, ran, represents⟩

def emptyQueue : Queue Nat := ⟨fun _ => none, 0, 0, none⟩

theorem queue_refines_list_moves :
    ∃ final, answerAll step emptyQueue.initializeHeader
        [.pushEntry 1, .pushEntry 2, .pushEntryBefore 3 (some 2), .popEntryByLink 9, .pushEntryAfter 4 (some 2),
          .moveEntryToEnd 1, .moveEntryToStart 5, .popEntryByIndex 2] =
        some (final, [.nothing, .nothing, .done true, .done false, .nothing, .nothing, .nothing, .link (some 2)]) ∧
      final.Represents [5, 3, 4, 1] :=
  queue_refines_list emptyQueue _ (by simp [AllowedRun, QueueOp.Keeps, Fresh, emptyQueue, queueStep, insertBefore,
    insertAfter])

def strictQueueStep (list : List P) : QueueOp P → List P × Answer P
  | .moveEntryToStart entry => (if entry ∈ list then entry :: list.erase entry else list, .nothing)
  | .moveEntryToEnd entry => (if entry ∈ list then list.erase entry ++ [entry] else list, .nothing)
  | op => queueStep list op

def PushesFresh (head : P) (list : List P) : QueueOp P → Prop
  | .pushEntry entry | .pushEntryAtFront entry | .pushEntryFixNumber entry _ | .pushEntryBefore entry _
  | .pushEntryAfter entry _ => Fresh head list entry
  | _ => True

theorem moveEntryToStart_pushes :
    ¬ ∀ (queue : Queue Nat) (ops : List (QueueOp Nat)),
      AllowedRun strictQueueStep (fun list op => PushesFresh queue.head list op) [] ops →
      ∃ final, answerAll step queue.initializeHeader ops = some (final, (specAll strictQueueStep [] ops).2) ∧
        final.Represents (specAll strictQueueStep [] ops).1 := by
  intro claimed
  obtain ⟨final, ran, represents⟩ := claimed emptyQueue [.moveEntryToStart 5] ⟨trivial, trivial⟩
  have pushed : final.depth = 1 := by
    have moved : (answerAll step emptyQueue.initializeHeader [.moveEntryToStart 5]).map (·.1.depth) = some 1 := rfl
    rw [ran] at moved
    exact Option.some.inj moved
  have depth := represents.depth
  rw [pushed] at depth
  exact absurd depth (by decide)

end Queue

end Runs

end CcspCommon.AnscPlatform
