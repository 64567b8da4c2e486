import CcspCommon.AnscAsn1.Oid

set_option autoImplicit false

namespace CcspCommon.AnscAsn1

open CcspCommon.Shared

section Runs

structure OidState where
  object : Oid
  value : List Nat
deriving DecidableEq

inductive OidCall
  | setOIDValue (pOIDArray : List Nat)
  | setStringOIDValue (pOIDString : Text)
  | decodingData (data : List UInt8)

namespace OidState

def initial (attrs : List Attr) : OidState := ⟨Oid.create attrs, []⟩

def step (w : Nat) (s : OidState) : OidCall → Option OidState
  | .setOIDValue pOIDArray =>
    (s.object.setOIDValue pOIDArray).map fun (object, status) =>
      ⟨object, if status = .success then pOIDArray else s.value⟩
  | .setStringOIDValue pOIDString =>
    (s.object.setStringOIDValue w pOIDString).map fun (object, status) =>
      ⟨object, if status = .success then spelled pOIDString else s.value⟩
  | .decodingData data =>
    match s.object.decodingData w data with
    | .ok (object, _) => some ⟨object, (Oid.decodedValue w s.object.attrs data).getD []⟩
    | .error _ => none

structure Reports (s : OidState) : Prop where
  buffer : s.object.getOIDBuffer.take s.object.uLength = s.value
  length : s.object.uLength = s.value.length
  string : s.object.getStringOIDValue = some (if s.value = [] then none else some (dotted s.value))

/-- A call that keeps clear of the stale array: a value of 1 to 16 numbers is set only while there is
no dynamic array, no string is refused for its first number, and a string of more numbers has no
spaces. The numbers fit an `int` in a string, and 15 digits elsewhere. -/
def Tame (w : Nat) (s : OidState) : OidCall → Prop
  | .setOIDValue pOIDArray => pOIDArray.headD 0 ≤ 2 →
      (∀ value ∈ pOIDArray, value < 10 ^ 15) ∧
        (pOIDArray = [] ∨ maximumOidDepth < pOIDArray.length ∨ s.object.pAdvOID = none)
  | .setStringOIDValue pOIDString => WellFormed pOIDString →
      (spelled pOIDString).headD 0 ≤ 2 ∧ (∀ value ∈ spelled pOIDString, value < 2 ^ 31) ∧
        (maximumOidDepth < (spelled pOIDString).length ∧ ' ' ∉ pOIDString ∨
          (spelled pOIDString).length ≤ maximumOidDepth ∧ s.object.pAdvOID = none)
  | .decodingData data => ∀ arcs, Oid.decodedValue w s.object.attrs data = some arcs → ∀ value ∈ arcs, value < 10 ^ 15

structure Invariant (s : OidState) : Prop where
  sound : s.object.Sound
  length : s.object.uLength = s.value.length
  stored : s.value <+: s.object.getOIDBuffer
  short : ∀ value ∈ s.value, value < 10 ^ 15

variable {w : Nat} {s t : OidState}

theorem Invariant.reports (holds : s.Invariant) : s.Reports := by
  have same : s.object.getOIDBuffer.take s.object.uLength = s.value := by
    rw [holds.length]
    exact (List.prefix_iff_eq_take.mp holds.stored).symm
  refine ⟨same, holds.length, ?_⟩
  have enough := holds.stored.length_le
  rw [Oid.getStringOIDValue, same, exportLoop_eq holds.short, holds.length]
  by_cases empty : s.value = []
  · rw [empty]
    rfl
  · rw [if_neg (mt List.length_eq_zero_iff.mp empty), if_neg (by omega), if_neg empty]
    rfl

theorem initial_invariant (attrs : List Attr) : (initial attrs).Invariant :=
  ⟨⟨List.length_replicate, fun _ present => by cases present⟩, rfl, List.nil_prefix, List.forall_mem_nil _⟩

theorem invariant_chain (sound : s.object.Sound) (none : s.object.pAdvOID = none) {values : List Nat}
    (few : values.length ≤ maximumOidDepth) (short : ∀ value ∈ values, value < 10 ^ 15) :
    (⟨{ s.object with
        uLength := values.length, pOIDChain := values ++ s.object.pOIDChain.drop values.length }, values⟩ :
      OidState).Invariant := by
  refine ⟨⟨?_, fun array present => ?_⟩, rfl, ?_, short⟩
  · change (values ++ s.object.pOIDChain.drop values.length).length = _
    rw [List.length_append, List.length_drop, sound.chain]
    omega
  · change s.object.pAdvOID = some array at present
    rw [none] at present
    cases present
  · change values <+: s.object.pAdvOID.getD _
    rw [none]
    exact List.prefix_append _ _

theorem invariant_adv (sound : s.object.Sound) {values : List Nat} (many : maximumOidDepth < values.length)
    (short : ∀ value ∈ values, value < 10 ^ 15) :
    (⟨{ s.object with uLength := values.length, pAdvOID := some values }, values⟩ : OidState).Invariant := by
  refine ⟨⟨sound.chain, fun array present => ?_⟩, rfl, List.prefix_refl _, short⟩
  obtain rfl := Option.some.inj present
  exact Nat.le_of_lt many

theorem Invariant.setOIDValue (holds : s.Invariant) {pOIDArray : List Nat} (tame : s.Tame w (.setOIDValue pOIDArray)) :
    ∃ t, s.step w (.setOIDValue pOIDArray) = some t ∧ t.Invariant := by
  cases pOIDArray with
  | nil => exact ⟨_, rfl, ⟨holds.sound.chain, holds.sound.adv⟩, rfl, List.nil_prefix, List.forall_mem_nil _⟩
  | cons first rest =>
    rw [step, Oid.setOIDValue]
    by_cases refused : first > 2
    · rw [if_pos refused]
      exact ⟨s, rfl, holds⟩
    obtain ⟨short, room⟩ := tame (Nat.le_of_not_gt refused)
    rw [if_neg refused]
    by_cases many : (first :: rest).length > maximumOidDepth
    · rw [if_pos many]
      exact ⟨_, rfl, invariant_adv holds.sound many short⟩
    · rw [if_neg many]
      obtain empty | wide | none := room
      · cases empty
      · exact (many wide).elim
      · rw [none]
        exact ⟨_, rfl, none ▸ invariant_chain holds.sound none (Nat.le_of_not_gt many) short⟩

theorem Invariant.setStringOIDValue (wide : 4 ≤ w) (holds : s.Invariant) {pOIDString : Text}
    (tame : s.Tame w (.setStringOIDValue pOIDString)) :
    ∃ t, s.step w (.setStringOIDValue pOIDString) = some t ∧ t.Invariant := by
  rw [step, Oid.setStringOIDValue]
  by_cases formed : WellFormed pOIDString
  · obtain ⟨first, small, room⟩ := tame formed
    obtain ⟨counted, rest, read⟩ := parsingOIDStringValue_eq wide formed small
    have short : ∀ value ∈ spelled pOIDString, value < 10 ^ 15 := by
      intro value member
      have := small value member
      omega
    rw [counted]
    dsimp only
    rw [read]
    dsimp only
    rw [List.length_map]
    obtain ⟨many, noSpace⟩ | ⟨few, none⟩ := room
    · have size : (pOIDString.splitOn '.').length = (spelled pOIDString).length := by
        rw [spelled, List.length_map, map_dot_of_no_space noSpace]
      rw [if_pos (by omega), Oid.fill, if_neg (by rw [List.length_replicate]; omega), size,
        List.drop_of_length_le (by simp), List.append_nil, Option.map_some, Option.map_some, if_neg (by omega)]
      exact ⟨_, rfl, invariant_adv holds.sound many short⟩
    · have size := length_splitOn_le pOIDString
      rw [if_neg (by omega), Oid.fill, if_neg (by rw [holds.sound.chain]; omega), Option.map_some, Option.map_some,
        if_neg (by omega)]
      exact ⟨_, rfl, invariant_chain holds.sound none few short⟩
  · rw [parsingOIDStringValue_none formed]
    exact ⟨s, rfl, holds⟩

theorem Invariant.decodingData (wide : 4 ≤ w) (holds : s.Invariant) {data : List UInt8}
    (tame : s.Tame w (.decodingData data)) (run : s.step w (.decodingData data) = some t) : t.Invariant := by
  rw [step] at run
  cases success : s.object.decodingData w data with
  | error reason =>
    rw [success] at run
    cases run
  | ok result =>
    obtain ⟨decoded, rest⟩ := result
    obtain ⟨arcs, value, -, length, stores⟩ := Oid.decodingData_stores wide holds.sound success
    rw [success] at run
    obtain rfl := Option.some.inj run
    rw [value]
    exact ⟨stores.sound, length, stores.stored, tame arcs value⟩

theorem step_invariant (wide : 4 ≤ w) (s t : OidState) (call : OidCall) (holds : s.Invariant) (tame : s.Tame w call)
    (run : s.step w call = some t) : t.Invariant := by
  cases call with
  | setOIDValue pOIDArray =>
    obtain ⟨_, same, invariant⟩ := holds.setOIDValue tame
    exact Option.some.inj (same.symm.trans run) ▸ invariant
  | setStringOIDValue pOIDString =>
    obtain ⟨_, same, invariant⟩ := holds.setStringOIDValue wide tame
    exact Option.some.inj (same.symm.trans run) ▸ invariant
  | decodingData data => exact holds.decodingData wide tame run

end OidState

end Runs

section ReportedValues

open OidState

theorem oid_reports_last_value (w : Nat) (wide : 4 ≤ w) (attrs : List Attr) (s : OidState)
    (reached : Reachable (step w) (Tame w) (initial attrs) s) :
    s.Reports ∧
      (∀ pOIDArray, s.Tame w (.setOIDValue pOIDArray) → (s.step w (.setOIDValue pOIDArray)).isSome) ∧
      ∀ pOIDString, s.Tame w (.setStringOIDValue pOIDString) → (s.step w (.setStringOIDValue pOIDString)).isSome := by
  have holds : s.Invariant := reached.invariant (initial_invariant attrs) (step_invariant wide)
  refine ⟨holds.reports, fun pOIDArray tame => ?_, fun pOIDString tame => ?_⟩
  · obtain ⟨t, run, -⟩ := holds.setOIDValue tame
    exact Option.isSome_of_eq_some run
  · obtain ⟨t, run, -⟩ := holds.setStringOIDValue wide tame
    exact Option.isSome_of_eq_some run

def sampleData : List UInt8 := [0x06, 0x06, 0x2A, 0x86, 0x48, 0x86, 0xF7, 0x0D, 0xFF]

theorem oid_reports_last_value_sample :
    (⟨⟨[], 17, [1, 2, 840, 113549] ++ List.replicate 12 0, some (2 :: List.replicate 16 5)⟩,
      2 :: List.replicate 16 5⟩ : OidState).Reports := by
  have first : Reachable (step 8) (Tame 8) (initial [])
      ⟨⟨[], 4, [1, 3, 6, 1] ++ List.replicate 12 0, none⟩, [1, 3, 6, 1]⟩ :=
    Reachable.start.via (.setStringOIDValue "1 3.6 1".toList)
      (fun _ => ⟨by decide, by decide, .inr ⟨by decide, rfl⟩⟩) (by decide)
  have second : Reachable (step 8) (Tame 8) (initial [])
      ⟨⟨[], 4, [1, 2, 840, 113549] ++ List.replicate 12 0, none⟩, [1, 2, 840, 113549]⟩ := by
    apply first.via (.decodingData sampleData)
    · intro arcs value
      have same : Oid.decodedValue 8 [] sampleData = some [1, 2, 840, 113549] := by decide
      obtain rfl := Option.some.inj (same.symm.trans value)
      decide
    · decide
  have third := second.via (.setOIDValue (2 :: List.replicate 16 5)) (fun _ => ⟨by decide, .inr (.inl (by decide))⟩) rfl
  exact (oid_reports_last_value 8 (by decide) [] _ third).1

theorem oid_reports_stale_value :
    ¬ ∀ s, Reachable (step 8) (fun _ _ => True) (initial []) s → s.Reports := by
  intro every
  have run : runAll (step 8) (initial [])
      [.setOIDValue (1 :: 3 :: List.replicate 15 7), .setStringOIDValue "1.2.3".toList] =
        some ⟨⟨[], 3, [1, 2, 3] ++ List.replicate 13 0, some (1 :: 3 :: List.replicate 15 7)⟩, [1, 2, 3]⟩ := by
    decide
  have reports := every _ (runAll_reachable _ (fun _ _ _ => trivial) .start run)
  exact absurd reports.buffer (by decide)

end ReportedValues

end CcspCommon.AnscAsn1
