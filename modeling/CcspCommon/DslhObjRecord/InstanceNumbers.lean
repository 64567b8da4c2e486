import CcspCommon.Shared.Decimal
import CcspCommon.Shared.Run
import Mathlib.Data.BitVec
import Mathlib.Data.List.Nodup
import Mathlib.Data.List.Perm.Subperm
import Mathlib.Logic.Function.Iterate

set_option autoImplicit false

namespace CcspCommon.DslhObjRecord

open CcspCommon.Shared

variable {w : Nat}

inductive Status
  | success | failure | internalError | badName | badIndex | backend
  deriving DecidableEq, Repr

-- `_ansc_itoa` takes an `int`, so the upper bits of the `ULONG` are cut off.
def itoa (value : BitVec w) : Text := decimal (value.setWidth 32).toInt

def instanceNumber (lastName : Text) : BitVec w := BitVec.ofInt w (atoi lastName)

structure TableRecord (w : Nat) where
  nextInstanceNumber : BitVec w
  objroQueue : List Text
  deriving DecidableEq, Repr

def create : TableRecord w := ⟨1, []⟩

def advance (next : BitVec w) : BitVec w :=
  if next + 1 = 0 then 1 else next + 1

def nextFree : Nat → List Text → BitVec w → Option (BitVec w)
  | 0, _, _ => none
  | fuel + 1, names, next =>
    if itoa (advance next) ∈ names then nextFree fuel names (advance next)
    else some (advance next)

def addObjRecord (table : TableRecord w) (lastName : Text) : Option (TableRecord w) :=
  let queue := table.objroQueue ++ [lastName]
  (nextFree (queue.length + 2) queue (instanceNumber lastName)).map fun next => ⟨next, queue⟩

def addChildObject (table : TableRecord w) (newEntryObject addEntry : Bool) :
    Option (Status × TableRecord w) :=
  let ulObjInsNumber := table.nextInstanceNumber
  let advanced := { table with nextInstanceNumber := table.nextInstanceNumber + 1 }
  if newEntryObject then
    if addEntry then
      (addObjRecord advanced (itoa ulObjInsNumber)).map fun added => (.success, added)
    else
      some (.failure, { advanced with nextInstanceNumber := advanced.nextInstanceNumber - 1 })
  else
    -- unlike the other failure, this one keeps the counter advanced
    some (.internalError, advanced)

def delChildObject (table : TableRecord w) (pObjName : Text) (delEntry : Bool) :
    Status × TableRecord w :=
  if pObjName ∈ table.objroQueue then
    if delEntry then (.success, { table with objroQueue := table.objroQueue.erase pObjName })
    else (.backend, table)
  else (.badName, table)

def childObjectCreated (table : TableRecord w) (ulInstanceNumber : BitVec w) :
    Option (TableRecord w) :=
  addObjRecord table (itoa ulInstanceNumber)

def childObjectRemoved (table : TableRecord w) (ulInstanceNumber : BitVec w) :
    Status × TableRecord w :=
  if ulInstanceNumber = 0 then (.success, { table with objroQueue := [] })
  else if itoa ulInstanceNumber ∈ table.objroQueue then
    (.success, { table with objroQueue := table.objroQueue.erase (itoa ulInstanceNumber) })
  else (.badIndex, table)

inductive Call (w : Nat)
  | addChildObject (newEntryObject addEntry : Bool)
  | delChildObject (pObjName : Text) (delEntry : Bool)
  | childObjectCreated (ulInstanceNumber : BitVec w)
  | childObjectRemoved (ulInstanceNumber : BitVec w)
  deriving DecidableEq, Repr

def step (table : TableRecord w) : Call w → Option (TableRecord w)
  | .addChildObject newEntryObject addEntry =>
    (addChildObject table newEntryObject addEntry).map Prod.snd
  | .delChildObject pObjName delEntry => some (delChildObject table pObjName delEntry).2
  | .childObjectCreated ulInstanceNumber => childObjectCreated table ulInstanceNumber
  | .childObjectRemoved ulInstanceNumber => some (childObjectRemoved table ulInstanceNumber).2

structure WellNumbered (table : TableRecord w) : Prop where
  distinct : (table.objroQueue.map (instanceNumber (w := w))).Nodup
  nonzero : table.nextInstanceNumber ≠ 0
  unused : ∀ lastName ∈ table.objroQueue, table.nextInstanceNumber ≠ instanceNumber lastName

theorem advance_ne_zero (wide : 0 < w) (next : BitVec w) : advance next ≠ 0 := by
  unfold advance
  split_ifs with wrapped
  · intro zero
    have bits := congrArg BitVec.toNat zero
    have one : 1 < 2 ^ w := Nat.one_lt_two_pow (by omega)
    simp only [BitVec.ofNat_eq_ofNat, BitVec.toNat_ofNat, Nat.mod_eq_of_lt one, Nat.zero_mod] at bits
    omega
  · exact wrapped

theorem nextFree_spec (wide : 0 < w) {fuel : Nat} {names : List Text} {next free : BitVec w}
    (run : nextFree fuel names next = some free) : free ≠ 0 ∧ itoa free ∉ names := by
  induction fuel generalizing next with
  | zero => simp [nextFree] at run
  | succ fuel ih =>
    rw [nextFree] at run
    split_ifs at run with used
    · exact ih run
    · obtain rfl := Option.some.inj run
      exact ⟨advance_ne_zero wide next, used⟩

theorem advance_toNat (wide : 0 < w) (next : BitVec w) :
    (advance next).toNat = if next.toNat + 1 = 2 ^ w then 1 else next.toNat + 1 := by
  have one : 1 < 2 ^ w := Nat.one_lt_two_pow (by omega)
  have bound := next.isLt
  have wraps : next + 1 = 0 ↔ next.toNat + 1 = 2 ^ w := by
    rw [BitVec.toNat_eq]
    simp only [BitVec.toNat_add, BitVec.ofNat_eq_ofNat, BitVec.toNat_ofNat, Nat.mod_eq_of_lt one,
      Nat.zero_mod]
    rcases Nat.lt_or_ge (next.toNat + 1) (2 ^ w) with below | above
    · rw [Nat.mod_eq_of_lt below]
      omega
    · have full : next.toNat + 1 = 2 ^ w := by omega
      simp [full]
  unfold advance
  by_cases full : next.toNat + 1 = 2 ^ w
  · rw [if_pos (wraps.mpr full), if_pos full]
    exact Nat.mod_eq_of_lt one
  · rw [if_neg (fun zero => full (wraps.mp zero)), if_neg full]
    simp only [BitVec.toNat_add, BitVec.ofNat_eq_ofNat, BitVec.toNat_ofNat, Nat.mod_eq_of_lt one]
    exact Nat.mod_eq_of_lt (by omega)

theorem advance_iterate_toNat (wide : 0 < w) (next : BitVec w) (steps : Nat) (few : steps < 2 ^ w) :
    (advance^[steps] next).toNat =
      if next.toNat + steps < 2 ^ w then next.toNat + steps else next.toNat + steps + 1 - 2 ^ w := by
  have bound := next.isLt
  induction steps with
  | zero => simp [bound]
  | succ steps ih =>
    rw [Function.iterate_succ_apply', advance_toNat wide, ih (by omega)]
    split_ifs <;> omega

theorem itoa_eq_iff (first second : BitVec w) :
    itoa first = itoa second ↔ first.toNat % 2 ^ 32 = second.toNat % 2 ^ 32 := by
  rw [itoa, itoa, decimal_injective.eq_iff, BitVec.toInt_inj, BitVec.toNat_eq, BitVec.toNat_setWidth,
    BitVec.toNat_setWidth]

theorem itoa_advance_ne (wide : 32 ≤ w) (next : BitVec w) {first second : Nat}
    (before : first < second) (few : second + 1 < 2 ^ 32) :
    itoa (advance^[first + 1] next) ≠ itoa (advance^[second + 1] next) := by
  obtain ⟨extra, rfl⟩ := Nat.exists_eq_add_of_le wide
  have size : 2 ^ (32 + extra) = 2 ^ 32 * 2 ^ extra := Nat.pow_add 2 32 extra
  have some : 0 < 2 ^ extra := Nat.two_pow_pos extra
  have bound := next.isLt
  rw [Ne, itoa_eq_iff, advance_iterate_toNat (by omega) next _ (by omega),
    advance_iterate_toNat (by omega) next _ (by omega), size]
  rw [size] at bound
  generalize 2 ^ extra = chunks at *
  split_ifs <;> omega

theorem nextFree_none {fuel : Nat} {names : List Text} {next : BitVec w}
    (run : nextFree fuel names next = none) (i : Nat) (within : i < fuel) :
    itoa (advance^[i + 1] next) ∈ names := by
  induction fuel generalizing next i with
  | zero => omega
  | succ fuel ih =>
    rw [nextFree] at run
    split_ifs at run with used
    cases i with
    | zero => exact used
    | succ i => exact ih run i (by omega)

theorem nextFree_terminates (wide : 32 ≤ w) (names : List Text) (next : BitVec w)
    (room : names.length + 2 < 2 ^ 32) : ∃ free, nextFree (names.length + 2) names next = some free := by
  cases run : nextFree (names.length + 2) names next with
  | some free => exact ⟨free, rfl⟩
  | none =>
    let tried := (List.range (names.length + 2)).map fun i => itoa (advance^[i + 1] next)
    have distinct : tried.Nodup := by
      refine List.Nodup.map_on ?_ List.nodup_range
      intro first firstIn second secondIn same
      rw [List.mem_range] at firstIn secondIn
      rcases Nat.lt_trichotomy first second with less | equal | more
      · exact absurd same (itoa_advance_ne wide next less (by omega))
      · exact equal
      · exact absurd same.symm (itoa_advance_ne wide next more (by omega))
    have taken : tried ⊆ names := by
      intro name member
      obtain ⟨i, inside, rfl⟩ := List.mem_map.mp member
      exact nextFree_none run i (List.mem_range.mp inside)
    have crowded := (List.subperm_of_subset distinct taken).length_le
    simp only [tried, List.length_map, List.length_range] at crowded
    omega

theorem step_total (wide : 32 ≤ w) (table : TableRecord w) (call : Call w)
    (room : table.objroQueue.length + 3 < 2 ^ 32) : ∃ after, step table call = some after := by
  have added : ∀ (start : TableRecord w) (lastName : Text), start.objroQueue = table.objroQueue →
      ∃ after, addObjRecord start lastName = some after := by
    intro start lastName same
    obtain ⟨free, search⟩ := nextFree_terminates wide (table.objroQueue ++ [lastName])
      (instanceNumber lastName) (by simpa using room)
    refine ⟨⟨free, table.objroQueue ++ [lastName]⟩, ?_⟩
    simp only [addObjRecord, same, search, Option.map_some]
  cases call with
  | addChildObject newEntryObject addEntry =>
    cases newEntryObject <;> cases addEntry <;>
      simp only [step, addChildObject, if_true, if_false, Bool.false_eq_true, Option.map_some,
        Option.some.injEq, exists_eq']
    obtain ⟨after, made⟩ := added { table with nextInstanceNumber := table.nextInstanceNumber + 1 }
      (itoa table.nextInstanceNumber) rfl
    exact ⟨after, by simp only [made, Option.map_some]⟩
  | delChildObject pObjName delEntry => exact ⟨_, rfl⟩
  | childObjectCreated ulInstanceNumber => exact added table (itoa ulInstanceNumber) rfl
  | childObjectRemoved ulInstanceNumber => exact ⟨_, rfl⟩
theorem setWidth_ofInt_toInt (wide : 32 ≤ w) (value : BitVec 32) :
    (BitVec.ofInt w value.toInt).setWidth 32 = value := by
  have signed : BitVec.ofInt w value.toInt = value.signExtend w := rfl
  rw [signed]
  ext i within
  have inside : i < w := by omega
  simp [inside, within, BitVec.getElem_signExtend]

theorem itoa_instanceNumber (wide : 32 ≤ w) {lastName : Text} {value : BitVec 32}
    (printed : lastName = decimal value.toInt) :
    itoa (instanceNumber lastName : BitVec w) = lastName := by
  rw [itoa, instanceNumber, printed, atoi_decimal, setWidth_ofInt_toInt wide]

structure NamesDistinct (table : TableRecord w) : Prop where
  printed : ∀ lastName ∈ table.objroQueue, ∃ value : BitVec 32, lastName = decimal value.toInt
  distinct : table.objroQueue.Nodup
  nonzero : table.nextInstanceNumber ≠ 0
  unused : itoa table.nextInstanceNumber ∉ table.objroQueue

theorem NamesDistinct.wellNumbered {table : TableRecord w} (wide : 32 ≤ w)
    (names : NamesDistinct table) : WellNumbered table := by
  refine ⟨?_, names.nonzero, ?_⟩
  · refine List.Nodup.map_on ?_ names.distinct
    intro first firstIn second secondIn same
    obtain ⟨value, printed⟩ := names.printed first firstIn
    obtain ⟨value', printed'⟩ := names.printed second secondIn
    rw [← itoa_instanceNumber wide printed, same, itoa_instanceNumber wide printed']
  · intro lastName member same
    obtain ⟨value, printed⟩ := names.printed lastName member
    apply names.unused
    rw [same, itoa_instanceNumber wide printed]
    exact member

theorem create_namesDistinct (wide : 32 ≤ w) : NamesDistinct (create : TableRecord w) where
  printed := by simp [create]
  distinct := by simp [create]
  nonzero := by
    intro zero
    have bits := congrArg BitVec.toNat zero
    have one : 1 < 2 ^ w := Nat.one_lt_two_pow (by omega)
    simp [create, Nat.mod_eq_of_lt one] at bits
  unused := by simp [create]

theorem addObjRecord_namesDistinct (wide : 32 ≤ w) (table : TableRecord w) {value : BitVec w}
    {after : TableRecord w}
    (printed : ∀ lastName ∈ table.objroQueue, ∃ value : BitVec 32, lastName = decimal value.toInt)
    (distinct : table.objroQueue.Nodup) (new : itoa value ∉ table.objroQueue)
    (run : addObjRecord table (itoa value) = some after) : NamesDistinct after := by
  simp only [addObjRecord, Option.map_eq_some_iff] at run
  obtain ⟨next, search, rfl⟩ := run
  obtain ⟨nonzero, unused⟩ := nextFree_spec (by omega) search
  refine ⟨?_, ?_, nonzero, unused⟩
  · intro lastName member
    rcases List.mem_append.mp member with old | added
    · exact printed lastName old
    · exact ⟨value.setWidth 32, List.mem_singleton.mp added⟩
  · rw [← List.concat_eq_append]
    exact distinct.concat new

theorem erase_namesDistinct {table : TableRecord w} (names : NamesDistinct table) (lastName : Text) :
    NamesDistinct { table with objroQueue := table.objroQueue.erase lastName } where
  printed other member := names.printed other (List.mem_of_mem_erase member)
  distinct := names.distinct.erase lastName
  nonzero := names.nonzero
  unused member := names.unused (List.mem_of_mem_erase member)

def KeepsNumbers (table : TableRecord w) : Call w → Prop
  -- the counter is left advanced by one, whatever is there
  | .addChildObject newEntryObject _ => newEntryObject = false →
    table.nextInstanceNumber + 1 ≠ 0 ∧ itoa (table.nextInstanceNumber + 1) ∉ table.objroQueue
  -- the number reported by the controller is taken without a check
  | .childObjectCreated ulInstanceNumber => itoa ulInstanceNumber ∉ table.objroQueue
  | .delChildObject _ _ => True
  | .childObjectRemoved _ => True

theorem step_namesDistinct (wide : 32 ≤ w) (table after : TableRecord w) (call : Call w)
    (names : NamesDistinct table) (safe : KeepsNumbers table call)
    (run : step table call = some after) : NamesDistinct after := by
  cases call with
  | addChildObject newEntryObject addEntry =>
    cases newEntryObject with
    | false =>
      obtain ⟨nonzero, unused⟩ := safe rfl
      obtain rfl := Option.some.inj run
      exact ⟨names.printed, names.distinct, nonzero, unused⟩
    | true =>
      cases addEntry with
      | false =>
        obtain rfl := Option.some.inj run
        have restored : table.nextInstanceNumber + 1 - 1 = table.nextInstanceNumber :=
          BitVec.add_sub_cancel _ _
        refine ⟨names.printed, names.distinct, ?_, ?_⟩
        · simpa only [restored] using names.nonzero
        · simpa only [restored] using names.unused
      | true =>
        simp only [step, addChildObject, if_true, Option.map_map, Option.map_eq_some_iff,
          Function.comp_apply] at run
        obtain ⟨added, made, rfl⟩ := run
        exact addObjRecord_namesDistinct wide _ names.printed names.distinct names.unused made
  | delChildObject pObjName delEntry =>
    obtain rfl := Option.some.inj run
    unfold delChildObject
    split_ifs
    · exact erase_namesDistinct names pObjName
    · exact names
    · exact names
  | childObjectCreated ulInstanceNumber =>
    exact addObjRecord_namesDistinct wide _ names.printed names.distinct safe run
  | childObjectRemoved ulInstanceNumber =>
    obtain rfl := Option.some.inj run
    unfold childObjectRemoved
    split_ifs
    · exact ⟨by simp, by simp, names.nonzero, by simp⟩
    · exact erase_namesDistinct names (itoa ulInstanceNumber)
    · exact names

theorem instance_numbers_distinct (wide : 32 ≤ w) {table : TableRecord w}
    (reached : Reachable step KeepsNumbers create table) : WellNumbered table :=
  (reached.invariant (create_namesDistinct wide) fun before after call =>
    step_namesDistinct wide before after call).wellNumbered wide

theorem instance_numbers_distinct_after_two_rows : ∃ table : TableRecord 32,
    runAll step create [.addChildObject true true, .addChildObject true true] = some table ∧
      table.objroQueue = ["1".toList, "2".toList] ∧ WellNumbered table := by
  have allowed : ∀ table : TableRecord 32, KeepsNumbers table (.addChildObject true true) :=
    fun _ absent => Bool.noConfusion absent
  refine ⟨⟨3, ["1".toList, "2".toList]⟩, by decide, rfl, instance_numbers_distinct (by decide) ?_⟩
  have one : step (create : TableRecord 32) (.addChildObject true true) = some ⟨2, ["1".toList]⟩ := by
    decide
  exact .next (.next .start (allowed _) one) (allowed _) (by decide)

theorem instance_numbers_collide_after_failed_row :
    ¬ ∀ table : TableRecord 32, Reachable step (fun _ _ => True) create table → WellNumbered table := by
  intro always
  let calls : List (Call 32) :=
    [.childObjectCreated 3, .childObjectCreated 1, .addChildObject false true]
  have run : runAll step create calls = some ⟨3, ["3".toList, "1".toList]⟩ := by decide
  have numbered := always _ (runAll_reachable calls (fun _ _ _ => trivial) .start run)
  exact numbered.unused "3".toList (by decide) (by decide)

end CcspCommon.DslhObjRecord
