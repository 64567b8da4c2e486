import Mathlib.Data.List.Induction
import Mathlib.Data.List.Lex
import Mathlib.Data.List.Sort

set_option autoImplicit false

namespace CcspCommon.AnscPlatform

section Identifiers

structure Asn1Oid where
  identifiers : List Nat
deriving DecidableEq, Repr

def Asn1Oid.length (oid : Asn1Oid) : Nat := oid.identifiers.length

def compIdentifiers : List (Nat × Nat) → Option Int
  | [] => none
  | (first, second) :: rest =>
    if first = second then compIdentifiers rest else if first > second then some 1 else some (-1)

def compOids (asn1Oid1 asn1Oid2 : Asn1Oid) : Int :=
  match compIdentifiers (asn1Oid1.identifiers.zip asn1Oid2.identifiers) with
  | some result => result
  | none =>
    if asn1Oid1.length = asn1Oid2.length then 0
    else if asn1Oid1.length > asn1Oid2.length then 1
    else -1

theorem compOids_cons (first second : Nat) (rest others : List Nat) :
    compOids ⟨first :: rest⟩ ⟨second :: others⟩ =
      if first = second then compOids ⟨rest⟩ ⟨others⟩ else if first > second then 1 else -1 := by
  by_cases same : first = second
  next => simp [compOids, compIdentifiers, same, Asn1Oid.length]
  next =>
    by_cases larger : first > second <;> simp [compOids, compIdentifiers, same, larger]

theorem cons_lt_cons (first second : Nat) (rest others : List Nat) :
    first :: rest < second :: others ↔ first < second ∨ first = second ∧ rest < others := by
  constructor
  · rintro (_ | less | less)
    · exact .inl less
    · exact .inr ⟨rfl, less⟩
  · rintro (less | ⟨rfl, less⟩)
    · exact .rel less
    · exact .cons less

theorem compOids_eq (first second : List Nat) :
    compOids ⟨first⟩ ⟨second⟩ = if first < second then -1 else if first = second then 0 else 1 := by
  induction first generalizing second with
  | nil =>
    cases second with
    | nil => rfl
    | cons head others =>
      rw [if_pos .nil]
      rfl
  | cons head rest ih =>
    cases second with
    | nil =>
      rw [if_neg (by rintro ⟨⟩), if_neg (List.cons_ne_nil _ _)]
      rfl
    | cons other others =>
      rw [compOids_cons, ih]
      obtain less | rfl | larger := Nat.lt_trichotomy head other
      · simp [cons_lt_cons, less, Nat.ne_of_lt less, Nat.le_of_lt less]
      · simp
      · simp [cons_lt_cons, larger, Nat.ne_of_gt larger, Nat.le_of_lt larger]

theorem compOids_eq_zero (first second : Asn1Oid) : compOids first second = 0 ↔ first = second := by
  cases first with
  | mk first =>
    cases second with
    | mk second =>
      rw [compOids_eq, Asn1Oid.mk.injEq]
      by_cases less : first < second
      · simp [less, ne_of_lt less]
      · by_cases same : first = second <;> simp [less, same]

theorem compOids_le_zero (first second : Asn1Oid) :
    compOids first second ≤ 0 ↔ first.identifiers ≤ second.identifiers := by
  rw [show compOids first second = _ from compOids_eq first.identifiers second.identifiers]
  obtain less | same | larger := lt_trichotomy first.identifiers second.identifiers
  · rw [if_pos less]
    exact iff_of_true (by decide) less.le
  · rw [if_neg (same ▸ lt_irrefl _), if_pos same]
    exact iff_of_true le_rfl same.le
  · rw [if_neg larger.not_gt, if_neg larger.ne']
    exact iff_of_false (by decide) larger.not_ge

end Identifiers

section Arrays

variable {P : Type} (memory : P → Asn1Oid)

def markLoop (asn1Oid : Asn1Oid) : Nat → List P → Bool × Nat
  | i, [] => (false, i)
  | i, entry :: rest =>
    let compResult := compOids asn1Oid (memory entry)
    if compResult > 0 then markLoop asn1Oid (i + 1) rest else (compResult = 0, i)

def markOidInArray (asn1Oid : Asn1Oid) (asn1OidArray : List P) : Bool × Nat :=
  let (oidMatched, i) := markLoop memory asn1Oid 0 asn1OidArray
  (if i ≥ asn1OidArray.length then false else oidMatched, i)

-- An array as it is allocated: its entries hold nothing until they are written.
abbrev Cells (P : Type) : Type := List (Option P)

-- There is no result where the access is outside of the array or reads what was never written.
def Cells.load (cells : Cells P) (index : Nat) : Option P := cells[index]?.join

def Cells.store (cells : Cells P) (index : Nat) (entry : P) : Option (Cells P) :=
  if index < cells.length then some (cells.set index (some entry)) else none

def insertionPlace (tempOid : P) (tempOidArray : Cells P) : Nat → Nat → Option Nat
  | 0, j => some j
  | turns + 1, j => do
    let entry ← tempOidArray.load j
    if compOids (memory tempOid) (memory entry) ≤ 0 then return j
    insertionPlace tempOid tempOidArray turns (j + 1)

def shiftUp (j : Nat) : Nat → Cells P → Option (Cells P)
  | 0, tempOidArray => some tempOidArray
  | k + 1, tempOidArray =>
    if k + 1 > j then do
      let entry ← tempOidArray.load k
      let tempOidArray ← tempOidArray.store (k + 1) entry
      shiftUp j k tempOidArray
    else some tempOidArray

def insertOid (tempOid : P) (tempOidArray : Cells P) (tempSize : Nat) : Option (Cells P × Nat) := do
  let j ← insertionPlace memory tempOid tempOidArray tempSize 0
  if j ≥ tempSize then
    let tempOidArray ← tempOidArray.store tempSize tempOid
    return (tempOidArray, tempSize + 1)
  let tempOidArray ← shiftUp j tempSize tempOidArray
  let tempOidArray ← tempOidArray.store j tempOid
  return (tempOidArray, tempSize + 1)

def insertOids : List P → Cells P → Nat → Option (Cells P)
  | [], tempOidArray, _ => some tempOidArray
  | tempOid :: rest, tempOidArray, tempSize => do
    let (tempOidArray, tempSize) ← insertOid memory tempOid tempOidArray tempSize
    insertOids rest tempOidArray tempSize

inductive SortStatus
  | success | resources
deriving DecidableEq, Repr

def sortOidArray (allocated : Bool) (asn1OidArray : List P) : Option (SortStatus × List P) :=
  if allocated then do
    let tempOidArray ← insertOids memory asn1OidArray (List.replicate asn1OidArray.length none) 0
    let sorted ← (List.range asn1OidArray.length).mapM tempOidArray.load
    return (.success, sorted)
  else some (.resources, asn1OidArray)

end Arrays

section Order

variable {P : Type} (memory : P → Asn1Oid)

def NotAfter (first second : P) : Prop := compOids (memory first) (memory second) ≤ 0

instance : DecidableRel (NotAfter memory) := fun _ _ => inferInstanceAs (Decidable (_ ≤ (0 : Int)))

instance : Std.Total (NotAfter memory) where
  total first second := by
    rw [NotAfter, NotAfter, compOids_le_zero, compOids_le_zero]
    exact le_total _ _

instance : IsTrans P (NotAfter memory) where
  trans first second third before after := by
    rw [NotAfter, compOids_le_zero] at *
    exact before.trans after

def Ordered (asn1OidArray : List P) : Prop := asn1OidArray.Pairwise (NotAfter memory)

def insertAll (asn1OidArray kept : List P) : List P :=
  asn1OidArray.foldl (fun kept tempOid => kept.orderedInsert (NotAfter memory) tempOid) kept

variable {memory}

theorem insertAll_perm (memory : P → Asn1Oid) (asn1OidArray kept : List P) :
    (insertAll memory asn1OidArray kept).Perm (asn1OidArray ++ kept) := by
  induction asn1OidArray generalizing kept with
  | nil => exact .refl _
  | cons tempOid rest ih =>
    have inserted := (kept.perm_orderedInsert (NotAfter memory) tempOid).append_left rest
    exact (ih _).trans (inserted.trans List.perm_middle)

theorem insertAll_ordered (asn1OidArray kept : List P) (ordered : Ordered memory kept) :
    Ordered memory (insertAll memory asn1OidArray kept) := by
  induction asn1OidArray generalizing kept with
  | nil => exact ordered
  | cons tempOid rest ih => exact ih _ (List.Pairwise.orderedInsert tempOid kept ordered)

theorem eq_of_notAfter {first second : P} (before : NotAfter memory first second)
    (after : NotAfter memory second first) :
    memory first = memory second := by
  rw [NotAfter, compOids_le_zero] at before after
  exact congrArg Asn1Oid.mk (le_antisymm before after)

end Order

section Sorting

variable {P : Type} (memory : P → Asn1Oid)

theorem load_here (front back : Cells P) (entry : P) :
    Cells.load (front ++ some entry :: back) front.length = some entry := by
  simp [Cells.load]

theorem store_here (front back : Cells P) (old : Option P) (entry : P) :
    Cells.store (front ++ old :: back) front.length entry = some (front ++ some entry :: back) := by
  simp [Cells.store]

theorem insertionPlace_eq (tempOid : P) (passed left : List P) (back : Cells P) :
    insertionPlace memory tempOid ((passed ++ left).map some ++ back) left.length passed.length =
      some (passed.length + (left.takeWhile fun entry => ¬ NotAfter memory tempOid entry).length) := by
  induction left generalizing passed with
  | nil => rfl
  | cons entry rest ih =>
    have here : Cells.load ((passed ++ entry :: rest).map some ++ back) passed.length = some entry := by
      simpa using load_here (passed.map some) (rest.map some ++ back) entry
    have later := ih (passed ++ [entry])
    rw [List.append_assoc, List.length_append] at later
    rw [List.length_cons, insertionPlace, here, Option.bind_eq_bind, Option.bind_some]
    by_cases before : NotAfter memory tempOid entry
    · rw [List.takeWhile_cons_of_neg (by simpa using before)]
      exact if_pos before
    · rw [Nat.add_right_comm] at later
      rw [List.takeWhile_cons_of_pos (by simpa using before), List.length_cons]
      exact (if_neg before).trans later

theorem shiftUp_eq (front : Cells P) (moved : List P) (slot : Option P) (back : Cells P) :
    ∃ first, shiftUp front.length (front.length + moved.length) (front ++ (moved.map some ++ slot :: back)) =
      some (front ++ first :: (moved.map some ++ back)) := by
  induction moved using List.reverseRecOn generalizing slot back with
  | nil =>
    refine ⟨slot, ?_⟩
    cases front with
    | nil => rfl
    | cons head rest => exact if_neg (Nat.lt_irrefl _)
  | append_singleton init last ih =>
    obtain ⟨first, shifted⟩ := ih (some last) (some last :: back)
    refine ⟨first, ?_⟩
    have length : (front ++ init.map some).length = front.length + init.length := by simp
    have load := load_here (front ++ init.map some) (slot :: back) last
    have store := store_here (front ++ (init.map some ++ [some last])) back slot last
    have next : (front ++ (init.map some ++ [some last])).length = front.length + init.length + 1 := by
      simp [Nat.add_assoc]
    rw [length] at load
    rw [next] at store
    rw [List.length_append, List.length_singleton, ← Nat.add_assoc, shiftUp, if_pos (by omega)]
    simp only [List.map_append, List.map_cons, List.map_nil, List.append_assoc, List.cons_append,
      List.nil_append] at load store shifted ⊢
    rw [load, Option.bind_eq_bind, Option.bind_some, store, Option.bind_eq_bind, Option.bind_some, shifted]

theorem insertOid_place (tempOid : P) (front moved : List P) (slot : Option P) (back : Cells P)
    (place : insertionPlace memory tempOid ((front ++ moved).map some ++ slot :: back) (front ++ moved).length 0 =
      some front.length) :
    insertOid memory tempOid ((front ++ moved).map some ++ slot :: back) (front ++ moved).length =
      some ((front ++ tempOid :: moved).map some ++ back, (front ++ moved).length + 1) := by
  rw [insertOid, place, Option.bind_eq_bind, Option.bind_some]
  cases moved with
  | nil =>
    have store := store_here (front.map some) back slot tempOid
    rw [List.length_map] at store
    rw [List.append_nil, if_pos le_rfl, store]
    simp
  | cons head rest =>
    obtain ⟨first, shifted⟩ := shiftUp_eq (front.map some) (head :: rest) slot back
    have store := store_here (front.map some) ((head :: rest).map some ++ back) first tempOid
    rw [List.length_map] at shifted store
    rw [if_neg (by simp), List.map_append, List.append_assoc, List.length_append, shifted, Option.bind_eq_bind,
      Option.bind_some, store]
    simp

theorem insertOid_eq (tempOid : P) (kept : List P) (slot : Option P) (back : Cells P) :
    insertOid memory tempOid (kept.map some ++ slot :: back) kept.length =
      some ((kept.orderedInsert (NotAfter memory) tempOid).map some ++ back, kept.length + 1) := by
  have place := insertionPlace_eq memory tempOid [] kept (slot :: back)
  have split := List.takeWhile_append_dropWhile (p := fun entry => ¬ NotAfter memory tempOid entry) (l := kept)
  rw [List.nil_append, List.length_nil, Nat.zero_add] at place
  have inserted := insertOid_place memory tempOid (kept.takeWhile fun entry => ¬ NotAfter memory tempOid entry)
    (kept.dropWhile fun entry => ¬ NotAfter memory tempOid entry) slot back
  rw [split] at inserted
  have written := inserted place
  rwa [← List.orderedInsert_eq_take_drop] at written

theorem insertOids_eq (left kept : List P) (back : Cells P) (room : back.length = left.length) :
    insertOids memory left (kept.map some ++ back) kept.length =
      some ((insertAll memory left kept).map some) := by
  induction left generalizing kept back with
  | nil =>
    rw [List.length_eq_zero_iff.mp room, List.append_nil]
    rfl
  | cons tempOid rest ih =>
    cases back with
    | nil => cases room
    | cons slot back =>
      have later := ih (kept.orderedInsert (NotAfter memory) tempOid) back (Nat.succ.inj room)
      rw [List.orderedInsert_length] at later
      rw [insertOids, insertOid_eq, Option.bind_eq_bind, Option.bind_some]
      exact later

theorem load_all (passed left : List P) :
    (List.range' passed.length left.length).mapM (Cells.load ((passed ++ left).map some)) = some left := by
  induction left generalizing passed with
  | nil => rfl
  | cons entry rest ih =>
    have here : Cells.load ((passed ++ entry :: rest).map some) passed.length = some entry := by
      simpa using load_here (passed.map some) (rest.map some) entry
    have later := ih (passed ++ [entry])
    rw [List.append_assoc, List.length_append] at later
    rw [List.length_cons, List.range'_succ, List.mapM_cons, here]
    simp only [Option.bind_eq_bind, Option.bind_some]
    exact congrArg (Option.bind · fun others => some (entry :: others)) later

theorem sortOidArray_allocated (asn1OidArray : List P) :
    sortOidArray memory true asn1OidArray = some (.success, insertAll memory asn1OidArray []) := by
  have inserted := insertOids_eq memory asn1OidArray [] (List.replicate asn1OidArray.length none)
    (List.length_replicate ..)
  have length := (insertAll_perm memory asn1OidArray []).length_eq
  have load := load_all [] (insertAll memory asn1OidArray [])
  rw [List.map_nil, List.nil_append, List.length_nil] at inserted
  rw [List.length_nil, List.nil_append, length, List.append_nil, ← List.range_eq_range'] at load
  rw [sortOidArray, if_pos rfl, inserted, Option.bind_eq_bind, Option.bind_some, load]
  rfl

end Sorting

section Marking

variable {P : Type} {memory : P → Asn1Oid}

theorem markLoop_place (memory : P → Asn1Oid) (asn1Oid : Asn1Oid) (left : List P) (i : Nat) :
    (markLoop memory asn1Oid i left).2 =
      i + (left.takeWhile fun entry => ¬ compOids asn1Oid (memory entry) ≤ 0).length := by
  induction left generalizing i with
  | nil => rfl
  | cons entry rest ih =>
    rw [markLoop]
    by_cases after : compOids asn1Oid (memory entry) > 0
    · rw [if_pos after, ih, List.takeWhile_cons_of_pos (by simpa using after), List.length_cons]
      omega
    · rw [if_neg after, List.takeWhile_cons_of_neg (by simpa using after)]
      rfl

theorem markLoop_matched {asn1Oid : Asn1Oid} {left : List P} {i : Nat}
    (oidMatched : (markLoop memory asn1Oid i left).1 = true) :
    ∃ entry, left[(markLoop memory asn1Oid i left).2 - i]? = some entry ∧ memory entry = asn1Oid := by
  induction left generalizing i with
  | nil => cases oidMatched
  | cons entry rest ih =>
    have place := markLoop_place memory asn1Oid rest (i + 1)
    rw [markLoop] at oidMatched ⊢
    by_cases after : compOids asn1Oid (memory entry) > 0
    · rw [if_pos after] at oidMatched ⊢
      obtain ⟨found, here, same⟩ := ih oidMatched
      refine ⟨found, ?_, same⟩
      rw [show (markLoop memory asn1Oid (i + 1) rest).2 - i = (markLoop memory asn1Oid (i + 1) rest).2 - (i + 1) + 1 by
        omega, List.getElem?_cons_succ, here]
    · rw [if_neg after] at oidMatched ⊢
      exact ⟨entry, by simp, ((compOids_eq_zero _ _).mp (of_decide_eq_true oidMatched)).symm⟩

theorem markLoop_present {asn1Oid : Asn1Oid} {left : List P} (ordered : Ordered memory left) {found : P}
    (present : found ∈ left) (same : memory found = asn1Oid) (i : Nat) :
    (markLoop memory asn1Oid i left).1 = true := by
  induction left generalizing i with
  | nil => cases present
  | cons entry rest ih =>
    obtain ⟨before, later⟩ := List.pairwise_cons.mp ordered
    have notAfter : found ∈ rest → compOids asn1Oid (memory entry) ≤ 0 → memory entry = asn1Oid := by
      intro inside stops
      rw [← same] at stops ⊢
      exact eq_of_notAfter (before found inside) stops
    rw [markLoop]
    by_cases after : compOids asn1Oid (memory entry) > 0
    · rw [if_pos after]
      obtain rfl | inside := List.mem_cons.mp present
      · rw [(compOids_eq_zero _ _).mpr same.symm] at after
        exact absurd after (lt_irrefl _)
      · exact ih later inside (i + 1)
    · rw [if_neg after]
      refine decide_eq_true ((compOids_eq_zero _ _).mpr ?_)
      obtain rfl | inside := List.mem_cons.mp present
      · exact same.symm
      · exact (notAfter inside (not_lt.mp after)).symm

structure Marks (memory : P → Asn1Oid) (asn1Oid : Asn1Oid) (asn1OidArray : List P) (marked : Bool × Nat) : Prop where
  matched : marked.1 = true ↔ ∃ entry ∈ asn1OidArray, memory entry = asn1Oid
  found : marked.1 = true → ∃ entry, asn1OidArray[marked.2]? = some entry ∧ memory entry = asn1Oid
  inserted : marked.1 = false → marked.2 ≤ asn1OidArray.length ∧ ∀ entry, memory entry = asn1Oid →
    Ordered memory (asn1OidArray.take marked.2 ++ entry :: asn1OidArray.drop marked.2)

theorem markOidInArray_eq (asn1Oid : Asn1Oid) (asn1OidArray : List P) :
    markOidInArray memory asn1Oid asn1OidArray = markLoop memory asn1Oid 0 asn1OidArray := by
  have unfolded : markOidInArray memory asn1Oid asn1OidArray =
      (if (markLoop memory asn1Oid 0 asn1OidArray).2 ≥ asn1OidArray.length then false
        else (markLoop memory asn1Oid 0 asn1OidArray).1, (markLoop memory asn1Oid 0 asn1OidArray).2) := rfl
  rw [unfolded]
  by_cases last : (markLoop memory asn1Oid 0 asn1OidArray).2 ≥ asn1OidArray.length
  · cases oidMatched : (markLoop memory asn1Oid 0 asn1OidArray).1 with
    | true =>
      obtain ⟨entry, here, -⟩ := markLoop_matched oidMatched
      rw [Nat.sub_zero, List.getElem?_eq_none last] at here
      cases here
    | false =>
      rw [if_pos last, ← oidMatched]
  · rw [if_neg last]

theorem markOidInArray_marks {asn1OidArray : List P} (ordered : Ordered memory asn1OidArray) (asn1Oid : Asn1Oid) :
    Marks memory asn1Oid asn1OidArray (markOidInArray memory asn1Oid asn1OidArray) := by
  rw [markOidInArray_eq]
  constructor
  case matched =>
    constructor
    · intro oidMatched
      obtain ⟨entry, here, same⟩ := markLoop_matched oidMatched
      exact ⟨entry, List.mem_of_getElem? here, same⟩
    · rintro ⟨entry, present, same⟩
      exact markLoop_present ordered present same 0
  case found =>
    intro oidMatched
    exact markLoop_matched oidMatched
  case inserted =>
    intro _
    rw [markLoop_place, Nat.zero_add]
    refine ⟨(List.takeWhile_prefix _).length_le, ?_⟩
    rintro entry rfl
    have inserted := List.Pairwise.orderedInsert (r := NotAfter memory) entry asn1OidArray ordered
    have split : asn1OidArray.takeWhile (fun other => ¬ NotAfter memory entry other) ++
        asn1OidArray.dropWhile (fun other => ¬ NotAfter memory entry other) = asn1OidArray :=
      List.takeWhile_append_dropWhile
    have front := @List.take_left _ (asn1OidArray.takeWhile fun other => ¬ NotAfter memory entry other)
      (asn1OidArray.dropWhile fun other => ¬ NotAfter memory entry other)
    have behind := @List.drop_left _ (asn1OidArray.takeWhile fun other => ¬ NotAfter memory entry other)
      (asn1OidArray.dropWhile fun other => ¬ NotAfter memory entry other)
    rw [split] at front behind
    rw [List.orderedInsert_eq_take_drop] at inserted
    rw [← front, ← behind] at inserted
    exact inserted

theorem oid_arrays (memory : P → Asn1Oid) :
    (∀ asn1OidArray : List P, ∃ sorted, sortOidArray memory true asn1OidArray = some (.success, sorted) ∧
      sorted.Perm asn1OidArray ∧ Ordered memory sorted) ∧
    (∀ asn1OidArray : List P, sortOidArray memory false asn1OidArray = some (.resources, asn1OidArray)) ∧
    ∀ asn1OidArray : List P, Ordered memory asn1OidArray → ∀ asn1Oid,
      Marks memory asn1Oid asn1OidArray (markOidInArray memory asn1Oid asn1OidArray) := by
  refine ⟨fun asn1OidArray => ?_, fun _ => rfl, fun asn1OidArray ordered => markOidInArray_marks ordered⟩
  have perm := insertAll_perm memory asn1OidArray []
  rw [List.append_nil] at perm
  exact ⟨_, sortOidArray_allocated memory asn1OidArray, perm, insertAll_ordered asn1OidArray [] .nil⟩

theorem oid_arrays_sample :
    Marks id ⟨[1, 3, 6]⟩ [⟨[1, 3]⟩, ⟨[1, 3, 6, 1]⟩] (markOidInArray id ⟨[1, 3, 6]⟩ [⟨[1, 3]⟩, ⟨[1, 3, 6, 1]⟩]) :=
  (oid_arrays id).2.2 [⟨[1, 3]⟩, ⟨[1, 3, 6, 1]⟩] (by unfold Ordered; decide) ⟨[1, 3, 6]⟩

end Marking

end CcspCommon.AnscPlatform
