import CcspCommon.SlapLoam.VariableArrays

set_option autoImplicit false

namespace CcspCommon.SlapLoam

open CcspCommon.AnscAsn1 (ulongSize networkMemory)
open CcspCommon.AnscLpcConnector (LpcError)
open CcspCommon.AnscPlatform
open CcspCommon.Shared (writeAt writeAt_room)
open CcspCommon.SlapVarHelper (capacity)

section Words

variable {machine : Machine}

theorem getUlong_second {first second : Nat} (small : second < 2 ^ 32) (behind : List UInt8) :
    getUlong machine (networkMemory machine first ++ (networkMemory machine second ++ behind)) (ulongSize machine) =
      some second := by
  rw [← Nat.add_zero (ulongSize machine), getUlong_word, getUlong_front small]

theorem getUlong_third {first second third : Nat} (small : third < 2 ^ 32) (behind : List UInt8) :
    getUlong machine (networkMemory machine first ++ (networkMemory machine second ++
      (networkMemory machine third ++ behind))) (2 * ulongSize machine) = some third := by
  rw [Nat.two_mul, getUlong_word, getUlong_second small]

theorem getUlong_fourth {first second third fourth : Nat} (small : fourth < 2 ^ 32) (behind : List UInt8) :
    getUlong machine (networkMemory machine first ++ (networkMemory machine second ++
      (networkMemory machine third ++ (networkMemory machine fourth ++ behind)))) (3 * ulongSize machine) =
      some fourth := by
  have three : 3 * ulongSize machine = ulongSize machine + 2 * ulongSize machine := by omega
  rw [three, getUlong_word, getUlong_third small]

theorem setUlong_zeros (words : List UInt8) {zeros place : Nat} (next : place = words.length)
    (enough : ulongSize machine ≤ zeros) (value : Nat) :
    setUlong machine (words ++ List.replicate zeros 0) place value =
      some (words ++ networkMemory machine value ++ List.replicate (zeros - ulongSize machine) 0) := by
  rw [next, setUlong_room words (by simpa using enough), List.drop_replicate, List.append_assoc]

end Words

section Call

variable (machine : Machine)

def paramsOctets (params : List SlapVariable) : List UInt8 := params.flatMap (·.encode machine)

def invoHead (hSlapObject : Nat) (method_name : List UInt8) (params : List SlapVariable) : List UInt8 :=
  networkMemory machine hSlapObject ++ (networkMemory machine method_name.length ++
    (networkMemory machine (paramsOctets machine params).length ++ method_name))

def invoOctets (hSlapObject : Nat) (method_name : List UInt8) (params : List SlapVariable) : List UInt8 :=
  invoHead machine hSlapObject method_name params ++ paramsOctets machine params

def callOctets (hSlapObject : Nat) (method_name : List UInt8) (params : List SlapVariable) : List UInt8 :=
  networkMemory machine callTypeInvo ++
    (networkMemory machine (invoOctets machine hSlapObject method_name params).length ++
      invoOctets machine hSlapObject method_name params)

structure CallFits (hSlapObject : Nat) (method_name : List UInt8) (params : List SlapVariable) : Prop where
  object : hSlapObject ≠ 0 ∧ hSlapObject < 2 ^ 32
  named : method_name ≠ [] ∧ 0 ∉ method_name
  room : params.length ≤ capacity
  each : ∀ param ∈ params, param.Fits machine
  size : (callOctets machine hSlapObject method_name params).length < 2 ^ 32

variable {machine} {hSlapObject : Nat} {method_name : List UInt8} {params : List SlapVariable}

theorem length_invoHead : (invoHead machine hSlapObject method_name params).length =
    invoCallSize machine + method_name.length := by
  simp only [invoHead, List.length_append, length_networkMemory, invoCallSize]
  omega

theorem length_invoOctets : (invoOctets machine hSlapObject method_name params).length =
    invoCallSize machine + method_name.length + (paramsOctets machine params).length := by
  rw [invoOctets, List.length_append, length_invoHead]

theorem length_callOctets : (callOctets machine hSlapObject method_name params).length =
    callSize machine + (invoOctets machine hSlapObject method_name params).length := by
  simp only [callOctets, List.length_append, length_networkMemory, callSize]
  omega

theorem paramsOctets_row (each : ∀ param ∈ params, param.Fits machine) :
    Row machine (params.map (·.encode machine)) (params.map SlapVariable.received) :=
  Row.of_map fun param member => encode_sent (each param member)

theorem flatten_params : (params.map (·.encode machine)).flatten = paramsOctets machine params :=
  List.flatMap_def.symm

theorem invoCall_tail {words : List UInt8} (place : words.length = 5 * ulongSize machine)
    (nameSize : ∀ behind, getUlong machine (words ++ behind) (3 * ulongSize machine) = some method_name.length)
    (each : ∀ param ∈ params, param.Fits machine) {zeros : Nat}
    (room : zeros = method_name.length + (paramsOctets machine params).length) :
    ((writeAt (words ++ List.replicate zeros 0) (5 * ulongSize machine) method_name).bind fun block =>
      (getUlong machine block (3 * ulongSize machine)).bind fun nameSize =>
        convParams machine (5 * ulongSize machine + nameSize) none params block) =
      some (words ++ (method_name ++ paramsOctets machine params)) := by
  have fits : method_name.length ≤ (List.replicate zeros (0 : UInt8)).length := by simp [room]
  have named := writeAt_room words (List.replicate zeros 0) fits
  rw [List.drop_replicate, place] at named
  have front : (words ++ method_name).length = 5 * ulongSize machine + method_name.length := by simp [place]
  have first (block : List UInt8) : nextVar machine block (5 * ulongSize machine + method_name.length) none =
      some (words ++ method_name).length := by simp [nextVar, front]
  have enough : (params.flatMap (·.encode machine)).length ≤
    (List.replicate (zeros - method_name.length) (0 : UInt8)).length := by
    simp only [room, paramsOctets, List.length_replicate]
    omega
  have filled := convParams_spec each (words ++ method_name) enough (first _)
  have all :
      (List.replicate (zeros - method_name.length) (0 : UInt8)).drop (params.flatMap (·.encode machine)).length =
        [] := by
    simp [room, paramsOctets]
  simp only [named, Option.bind_some, nameSize]
  simpa only [paramsOctets, all, List.append_assoc, List.append_nil] using filled

theorem invoCall_spec (fits : CallFits machine hSlapObject method_name params) :
    invoCall machine hSlapObject method_name params = some (callOctets machine hSlapObject method_name params) := by
  have size := fits.size
  rw [length_callOctets, length_invoOctets] at size
  have array : varArraySize machine params = (paramsOctets machine params).length := by
    have small : 0 + (paramsOctets machine params).length < 2 ^ 32 := by omega
    simpa [varArraySize, paramsOctets] using varArraySize_eq fits.each small
  have data : ulong machine (invoCallSize machine + method_name.length + (paramsOctets machine params).length) =
      (invoOctets machine hSlapObject method_name params).length := by
    rw [length_invoOctets, ulong_small (by omega)]
  have whole : ulong machine (callSize machine + (invoOctets machine hSlapObject method_name params).length) =
      5 * ulongSize machine + method_name.length + (paramsOctets machine params).length := by
    rw [length_invoOctets, ulong_small (by omega)]
    simp only [callSize, invoCallSize]
    omega
  have start : List.replicate (5 * ulongSize machine + method_name.length + (paramsOctets machine params).length) 0 =
      ([] : List UInt8) ++ List.replicate (5 * ulongSize machine + method_name.length +
        (paramsOctets machine params).length) 0 := rfl
  simp only [invoCall, array, data, whole, Option.bind_eq_bind]
  rw [start, setUlong_zeros [] (show 0 = List.length [] from rfl) (by omega), Option.bind_some,
    setUlong_zeros _ (by simp) (by omega), Option.bind_some, setUlong_zeros _ (by simp; omega) (by omega),
    Option.bind_some, setUlong_zeros _ (by simp; omega) (by omega), Option.bind_some,
    setUlong_zeros _ (by simp; omega) (by omega), Option.bind_some,
    invoCall_tail (by simp; omega) ?_ fits.each (by omega)]
  next => simp [callOctets, invoOctets, invoHead, List.append_assoc]
  next =>
    intro behind
    simp only [List.nil_append, List.append_assoc]
    exact getUlong_fourth (by omega) _

theorem invoOctets_words (fits : CallFits machine hSlapObject method_name params) :
    getUlong machine (invoOctets machine hSlapObject method_name params) 0 = some hSlapObject ∧
      getUlong machine (invoOctets machine hSlapObject method_name params) (ulongSize machine) =
        some method_name.length ∧
      getUlong machine (invoOctets machine hSlapObject method_name params) (2 * ulongSize machine) =
        some (paramsOctets machine params).length := by
  have size := fits.size
  rw [length_callOctets, length_invoOctets] at size
  simp only [invoOctets, invoHead, List.append_assoc]
  exact ⟨getUlong_front fits.object.2 _, getUlong_second (by omega) _, getUlong_third (by omega) _⟩

variable (server : LoamServer)

theorem processCallInvo_spec (fits : CallFits machine hSlapObject method_name params) :
    processCallInvo machine server (invoOctets machine hSlapObject method_name params) =
      (invoAnswer machine server (server.invokeObject hSlapObject method_name (params.map SlapVariable.received))).map
        fun output => ⟨true, LpcError.noError.code, output⟩ := by
  obtain ⟨object, nameSize, arraySize⟩ := invoOctets_words fits
  have size := fits.size
  have word := ulongSize_pos machine
  rw [length_callOctets, length_invoOctets] at size
  have row := paramsOctets_row fits.each
  have split : invoOctets machine hSlapObject method_name params =
      invoHead machine hSlapObject method_name params ++ ((params.map (·.encode machine)).flatten ++ []) := by
    rw [flatten_params, List.append_nil, invoOctets]
  have place : 3 * ulongSize machine + method_name.length =
      (invoHead machine hSlapObject method_name params).length := by rw [length_invoHead, invoCallSize]
  have named : (((invoOctets machine hSlapObject method_name params).drop (3 * ulongSize machine)).take
      method_name.length).takeWhile (· ≠ 0) = method_name := by
    have three : 3 * ulongSize machine = (networkMemory machine hSlapObject ++
        (networkMemory machine method_name.length ++
          networkMemory machine (paramsOctets machine params).length)).length := by
      simp only [List.length_append, length_networkMemory]
      omega
    have apart : invoOctets machine hSlapObject method_name params = (networkMemory machine hSlapObject ++
        (networkMemory machine method_name.length ++ networkMemory machine (paramsOctets machine params).length)) ++
          (method_name ++ paramsOctets machine params) := by
      simp only [invoOctets, invoHead, List.append_assoc]
    rw [apart, three, List.drop_left, List.take_left, List.takeWhile_eq_self_iff]
    intro octet member
    exact decide_eq_true fun zero : octet = 0 => fits.named.2 (zero ▸ member)
  have valid : invoCallValidate machine (invoOctets machine hSlapObject method_name params) = some true := by
    have array := row.validateArray (invoHead machine hSlapObject method_name params) []
    rw [← split, flatten_params, ← place] at array
    have some_name : method_name.length ≠ 0 := by simpa using fits.named.1
    simp only [invoCallValidate, nameSize, arraySize, Option.bind_eq_bind, Option.bind_some, length_invoOctets]
    rw [if_neg (by omega), ulong_small (by omega), if_neg (by simp), if_neg some_name, array]
  have count : getVarCount machine (invoOctets machine hSlapObject method_name params)
      (paramsOctets machine params).length (3 * ulongSize machine + method_name.length) = some params.length := by
    have counted := row.getVarCount (invoHead machine hSlapObject method_name params) []
    rwa [← split, flatten_params, ← place, List.length_map] at counted
  have read : paramsFrom machine (invoOctets machine hSlapObject method_name params)
      (3 * ulongSize machine + method_name.length) 0 params.length = some (params.map SlapVariable.received) := by
    have all := @Row.paramsFrom machine [] _ [] _ .nil row (by simpa using fits.room)
      (invoHead machine hSlapObject method_name params) []
    rw [List.flatten_nil, List.nil_append, ← split, ← place] at all
    simpa using all
  simp only [processCallInvo, valid, object, nameSize, arraySize, named, count, read, Option.bind_eq_bind,
    Option.bind_some, not_true_eq_false, if_false, fits.object.1]
  cases invoAnswer machine server _ <;> rfl

theorem callDispatch_spec (active : server.bActive) (fits : CallFits machine hSlapObject method_name params) :
    callDispatch machine server (callOctets machine hSlapObject method_name params) =
      (invoAnswer machine server (server.invokeObject hSlapObject method_name (params.map SlapVariable.received))).map
        fun output => ⟨true, LpcError.noError.code, output⟩ := by
  have size := fits.size
  have behind : (callOctets machine hSlapObject method_name params).drop (callSize machine) =
      invoOctets machine hSlapObject method_name params := by
    have two : callSize machine = (networkMemory machine callTypeInvo ++
        networkMemory machine (invoOctets machine hSlapObject method_name params).length).length := by
      simp only [callSize, List.length_append, length_networkMemory]
      omega
    rw [callOctets, ← List.append_assoc, two, List.drop_left]
  rw [length_callOctets] at size
  have kind : getUlong machine (callOctets machine hSlapObject method_name params) 0 = some callTypeInvo :=
    getUlong_front (by decide) _
  have data : getUlong machine (callOctets machine hSlapObject method_name params) (ulongSize machine) =
      some (invoOctets machine hSlapObject method_name params).length := getUlong_second (by omega) _
  simp only [callDispatch, active, data, kind, behind, length_callOctets, Option.bind_eq_bind, Option.bind_some,
    not_true_eq_false, ne_eq, if_false, if_true]
  rw [if_neg (by omega), processCallInvo_spec server fits]

end Call

end CcspCommon.SlapLoam
