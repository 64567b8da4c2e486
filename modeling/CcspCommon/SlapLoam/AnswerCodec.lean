import CcspCommon.SlapLoam.InvocationCodec

set_option autoImplicit false

namespace CcspCommon.SlapLoam

open CcspCommon.AnscAsn1 (ulongSize networkMemory)
open CcspCommon.AnscPlatform
open CcspCommon.SlapVarHelper (capacity)

section Variables

variable (machine : Machine) (server : LoamServer)

def answerOctets (slap_var : SlapVariable) : List UInt8 :=
  match slap_var.slapObject with
  | some varObject =>
    encodeObject machine slap_var.contentType varObject (server.objType varObject) (server.objName varObject)
  | none => slap_var.encode machine

def answered (slap_var : SlapVariable) : SlapVariable :=
  match slap_var.slapObject with
  | some varObject => ⟨some (server.objName varObject), slap_var.contentType, 0, 0, .object varObject⟩
  | none => slap_var.received

structure AnswerVarFits (slap_var : SlapVariable) : Prop where
  fits : slap_var.Fits machine
  named : ∀ varObject, slap_var.slapObject = some varObject → 0 ∉ server.objName varObject
  size : (answerOctets machine server slap_var).length < 2 ^ 32

variable {machine server} {slap_var : SlapVariable}

theorem slapObject_eq {varObject : Nat} (object : slap_var.slapObject = some varObject) :
    slap_var.variant = .object varObject := by
  simp only [SlapVariable.slapObject] at object
  split at object <;> simp_all

theorem object_small (fits : slap_var.Fits machine) {varObject : Nat} (object : slap_var.slapObject = some varObject) :
    varObject < 2 ^ 32 := by
  have variant := fits.variant
  rwa [slapObject_eq object] at variant

theorem answerOctets_sent (fits : AnswerVarFits machine server slap_var) :
    Sent machine (answerOctets machine server slap_var) (answered server slap_var) := by
  have size := fits.size
  have sent := encode_sent fits.fits
  simp only [answerOctets, answered] at size ⊢
  cases object : slap_var.slapObject with
  | none => exact sent
  | some varObject =>
    simp only [object, encodeObject, length_packed] at size ⊢
    exact {
      header := by simp
      size := getSize_packed (by omega)
      reads := fun front back => convFromImcpVar_object front fits.fits.contentType (object_small fits.fits object) _
        (fits.named varObject object) back }

theorem answerVarSize_eq (fits : AnswerVarFits machine server slap_var) :
    answerVarSize machine server slap_var = (answerOctets machine server slap_var).length := by
  rw [answerVarSize, getVarSize_eq fits.fits, answerOctets]
  cases object : slap_var.slapObject with
  | none => simp
  | some varObject =>
    simp only [length_encode, slapObject_eq object, Variant.octets, encodeObject, length_packed, List.length_append,
      length_networkMemory, List.length_singleton]
    omega

theorem setFlags_packed (front : List UInt8) (contentType varSyntax flags value : Nat) (data back : List UInt8) :
    setFlags machine (front ++ (packed machine contentType varSyntax flags data ++ back)) front.length value =
      some (front ++ (packed machine contentType varSyntax value data ++ back)) := by
  have place : front.length + 3 * ulongSize machine = (front ++ (networkMemory machine contentType ++
      (networkMemory machine varSyntax ++ networkMemory machine data.length))).length := by
    simp only [List.length_append, length_networkMemory]
    omega
  have updated := @setUlong_part machine (front ++ (networkMemory machine contentType ++
    (networkMemory machine varSyntax ++ networkMemory machine data.length))) flags value (data ++ back)
  rw [setFlags, place]
  simpa [packed, List.append_assoc] using updated

theorem answerVar_object (front : List UInt8) {varObject : Nat} (object : slap_var.slapObject = some varObject)
    (fits : AnswerVarFits machine server slap_var) {room : List UInt8}
    (enough : (answerOctets machine server slap_var).length ≤ room.length) :
    answerVar machine server (front ++ room) slap_var front.length =
      some (front ++ (answerOctets machine server slap_var ++
        room.drop (answerOctets machine server slap_var).length)) := by
  have size := fits.size
  simp only [answerOctets, object, encodeObject, length_packed, List.length_append, length_networkMemory,
    List.length_singleton] at size enough ⊢
  have same := slapObject_eq object
  have coded : slap_var.encode machine =
      packed machine slap_var.contentType 15 0 (networkMemory machine varObject) := by
    simp [SlapVariable.encode, same, Variant.octets, Variant.varSyntax]
  have small : (slap_var.variant.octets machine).length < 2 ^ 32 := by
    simp only [same, Variant.octets, length_networkMemory]
    omega
  have inside : (slap_var.encode machine).length ≤ room.length := by
    simp only [coded, length_packed, length_networkMemory]
    omega
  have written := convToImcpVar_spec front small inside
  rw [coded, length_packed, length_networkMemory] at written
  have typed := @appendData_packed machine front slap_var.contentType 15 (flagObjType ||| flagObjName)
    (networkMemory machine varObject) (networkMemory machine (server.objType varObject))
    (room.drop (varHeaderSize machine + ulongSize machine))
    (by simp only [List.length_append, length_networkMemory]; omega)
    (by simp only [List.length_drop, length_networkMemory]; omega)
  have named := @appendData_packed machine front slap_var.contentType 15 (flagObjType ||| flagObjName)
    (networkMemory machine varObject ++ networkMemory machine (server.objType varObject))
    (server.objName varObject ++ [0]) ((room.drop (varHeaderSize machine + ulongSize machine)).drop (ulongSize machine))
    (by simp only [List.length_append, length_networkMemory, List.length_singleton]; omega)
    (by simp only [List.length_append, List.length_drop, List.length_singleton]; omega)
  rw [length_networkMemory] at typed
  simp only [answerVar, written, object, Option.bind_eq_bind, Option.bind_some, setFlags_packed, appendUlong, typed,
    appendString, named]
  simp only [List.append_assoc, List.drop_drop, List.length_append, List.length_singleton, Nat.add_assoc]

theorem answerVar_spec (front : List UInt8) (fits : AnswerVarFits machine server slap_var) {room : List UInt8}
    (enough : (answerOctets machine server slap_var).length ≤ room.length) :
    answerVar machine server (front ++ room) slap_var front.length =
      some (front ++ (answerOctets machine server slap_var ++
        room.drop (answerOctets machine server slap_var).length)) := by
  cases object : slap_var.slapObject with
  | some varObject => exact answerVar_object front object fits enough
  | none =>
    have size := fits.fits.size
    simp only [answerOctets, object] at enough ⊢
    simp only [answerVar, convToImcpVar_spec front (by omega) enough, object, Option.bind_eq_bind, Option.bind_some]

end Variables

section Answers

variable (machine : Machine) (server : LoamServer)

def varsOctets (vars : List SlapVariable) : List UInt8 := vars.flatMap (answerOctets machine server)

variable {machine server}

theorem answerVars_spec {vars : List SlapVariable} (each : ∀ slap_var ∈ vars, AnswerVarFits machine server slap_var)
    (front : List UInt8) {room : List UInt8} (enough : (varsOctets machine server vars).length ≤ room.length) :
    answerVars machine server vars front.length (front ++ room) =
      some (front ++ (varsOctets machine server vars ++ room.drop (varsOctets machine server vars).length)) := by
  induction vars generalizing front room with
  | nil => simp [answerVars, varsOctets]
  | cons slap_var rest ih =>
    simp only [List.forall_mem_cons] at each
    simp only [varsOctets, List.flatMap_cons, List.length_append] at enough ih ⊢
    have first := answerVar_spec front each.1
      (show (answerOctets machine server slap_var).length ≤ room.length by omega)
    have size := (answerOctets_sent each.1).size front (room.drop (answerOctets machine server slap_var).length)
    have left : (rest.flatMap (answerOctets machine server)).length ≤
        (room.drop (answerOctets machine server slap_var).length).length := by
      rw [List.length_drop]
      omega
    have later := ih each.2 (front ++ answerOctets machine server slap_var) left
    simp only [List.length_append, List.append_assoc, List.drop_drop] at later
    simp only [answerVars, first, size, later, Option.bind_eq_bind, Option.bind_some, List.append_assoc]

theorem varsSize_eq {vars : List SlapVariable} (each : ∀ slap_var ∈ vars, AnswerVarFits machine server slap_var)
    {size : Nat} (small : size + (varsOctets machine server vars).length < 2 ^ 32) :
    vars.foldl (fun size slap_var => ulong machine (size + answerVarSize machine server slap_var)) size =
      size + (varsOctets machine server vars).length := by
  induction vars generalizing size with
  | nil => simp [varsOctets]
  | cons slap_var rest ih =>
    simp only [List.forall_mem_cons] at each
    simp only [varsOctets, List.flatMap_cons, List.length_append] at small ih ⊢
    rw [List.foldl_cons, answerVarSize_eq each.1, ulong_small (by omega), ih each.2 (by omega), Nat.add_assoc]

theorem varsOctets_row {vars : List SlapVariable} (each : ∀ slap_var ∈ vars, AnswerVarFits machine server slap_var) :
    Row machine (vars.map (answerOctets machine server)) (vars.map (answered server)) :=
  Row.of_map fun slap_var member => answerOctets_sent (each slap_var member)

theorem flatten_vars (vars : List SlapVariable) :
    (vars.map (answerOctets machine server)).flatten = varsOctets machine server vars := List.flatMap_def.symm

end Answers

section Replies

variable (machine : Machine) (server : LoamServer) (invoked : Invoked)

def invoAnswerHead : List UInt8 :=
  networkMemory machine (invoAnswerSize machine + (varsOctets machine server invoked.vars).length) ++
    (networkMemory machine invoked.asStatusCode ++ (networkMemory machine invoked.returnFlag ++
      networkMemory machine (varsOctets machine server invoked.vars).length))

def invoAnswerOctets : List UInt8 :=
  invoAnswerHead machine server invoked ++ varsOctets machine server invoked.vars

structure AnswerFits : Prop where
  status : invoked.asStatusCode < 2 ^ 32
  room : (invoked.pOutputParamList.getD []).length ≤ capacity
  each : ∀ slap_var ∈ invoked.vars, AnswerVarFits machine server slap_var
  size : (invoAnswerOctets machine server invoked).length < 2 ^ 32

variable {machine server invoked}

theorem length_invoAnswerHead :
    (invoAnswerHead machine server invoked).length = answerSize machine + invoAnswerSize machine := by
  simp only [invoAnswerHead, List.length_append, length_networkMemory, answerSize, invoAnswerSize]
  omega

theorem invoAnswer_spec (fits : AnswerFits machine server invoked) :
    invoAnswer machine server invoked = some (invoAnswerOctets machine server invoked) := by
  have size := fits.size
  rw [invoAnswerOctets, List.length_append, length_invoAnswerHead] at size
  have array : invoked.vars.foldl
    (fun size slap_var => ulong machine (size + answerVarSize machine server slap_var)) 0 =
      (varsOctets machine server invoked.vars).length := by
    have sum := varsSize_eq fits.each (show 0 + (varsOctets machine server invoked.vars).length < 2 ^ 32 by omega)
    simpa using sum
  have data : ulong machine (invoAnswerSize machine + (varsOctets machine server invoked.vars).length) =
      invoAnswerSize machine + (varsOctets machine server invoked.vars).length := ulong_small (by omega)
  have whole : ulong machine (answerSize machine + (invoAnswerSize machine +
      (varsOctets machine server invoked.vars).length)) =
        4 * ulongSize machine + (varsOctets machine server invoked.vars).length := by
    rw [ulong_small (by omega)]
    simp only [answerSize, invoAnswerSize]
    omega
  have start : List.replicate (4 * ulongSize machine + (varsOctets machine server invoked.vars).length) 0 =
      ([] : List UInt8) ++
        List.replicate (4 * ulongSize machine + (varsOctets machine server invoked.vars).length) 0 := rfl
  have head : [] ++ networkMemory machine (invoAnswerSize machine + (varsOctets machine server invoked.vars).length) ++
      networkMemory machine invoked.asStatusCode ++ networkMemory machine invoked.returnFlag ++
        networkMemory machine (varsOctets machine server invoked.vars).length =
      invoAnswerHead machine server invoked := by simp [invoAnswerHead, List.append_assoc]
  have room : 4 * ulongSize machine + (varsOctets machine server invoked.vars).length - ulongSize machine -
      ulongSize machine - ulongSize machine - ulongSize machine = (varsOctets machine server invoked.vars).length := by
    omega
  simp only [invoAnswer, array, data, whole, Option.bind_eq_bind]
  rw [start, setUlong_zeros [] (show 0 = List.length [] from rfl) (by omega), Option.bind_some,
    setUlong_zeros _ (by simp) (by omega), Option.bind_some, setUlong_zeros _ (by simp; omega) (by omega),
    Option.bind_some, setUlong_zeros _ (by simp; omega) (by omega), Option.bind_some, head, room]
  by_cases filled : invoked.asStatusCode = statusSuccess ∧ 0 < (varsOctets machine server invoked.vars).length
  next =>
    have written := answerVars_spec fits.each (invoAnswerHead machine server invoked)
      (show (varsOctets machine server invoked.vars).length ≤
        (List.replicate (varsOctets machine server invoked.vars).length (0 : UInt8)).length by simp)
    rw [length_invoAnswerHead] at written
    rw [if_pos filled, written]
    simp [invoAnswerOctets]
  next =>
    have none_sent : (varsOctets machine server invoked.vars).length = 0 := by
      by_cases success : invoked.asStatusCode = statusSuccess
      next => simpa [success] using filled
      next => simp [Invoked.vars, success, varsOctets]
    rw [if_neg filled, none_sent, invoAnswerOctets, List.eq_nil_of_length_eq_zero none_sent]
    rfl

def Invoked.delivered (server : LoamServer) (invoked : Invoked) : InvokeResult :=
  if invoked.vars = [] then ⟨invoked.asStatusCode, none, none⟩
  else ⟨invoked.asStatusCode, invoked.pOutputParamList.map (·.map (answered server)),
    invoked.pReturnedVar.map (answered server)⟩

theorem returnFlag_small : invoked.returnFlag < 2 ^ 32 := by
  unfold Invoked.returnFlag
  repeat' split
  all_goals decide

theorem outputs_read (fits : AnswerFits machine server invoked) (success : invoked.asStatusCode = statusSuccess) :
    paramsFrom machine (invoAnswerOctets machine server invoked) (answerSize machine + invoAnswerSize machine)
      (if invoked.pReturnedVar.isSome then 1 else 0) invoked.vars.length =
        some ((invoked.pOutputParamList.getD []).map (answered server)) := by
  have vars : invoked.vars = invoked.pReturnedVar.toList ++ invoked.pOutputParamList.getD [] := by
    simp [Invoked.vars, success]
  have each := fits.each
  simp only [vars, List.mem_append, or_imp, forall_and] at each
  have count : (if invoked.pReturnedVar.isSome then 1 else 0) = invoked.pReturnedVar.toList.length := by
    cases invoked.pReturnedVar <;> rfl
  have read := (varsOctets_row each.1).paramsFrom (varsOctets_row each.2) (by simpa using fits.room)
    (invoAnswerHead machine server invoked) []
  simp only [flatten_vars, List.length_map, length_invoAnswerHead, List.append_nil] at read
  simpa [invoAnswerOctets, vars, varsOctets, count] using read

theorem returned_read (fits : AnswerFits machine server invoked) (success : invoked.asStatusCode = statusSuccess)
    {slap_var : SlapVariable} (returned : invoked.pReturnedVar = some slap_var) :
    convFromImcpVar machine (invoAnswerOctets machine server invoked) (answerSize machine + invoAnswerSize machine) =
      some (answered server slap_var) := by
  have vars : invoked.vars = slap_var :: invoked.pOutputParamList.getD [] := by simp [Invoked.vars, success, returned]
  have sent := answerOctets_sent (fits.each slap_var (by simp [vars]))
  have read := sent.reads (invoAnswerHead machine server invoked)
    (varsOctets machine server (invoked.pOutputParamList.getD []))
  simpa [invoAnswerOctets, vars, varsOctets, length_invoAnswerHead] using read

theorem returnFlag_returned (success : invoked.asStatusCode = statusSuccess) :
    invoked.returnFlag &&& flagReturnedValue ≠ 0 ↔ invoked.pReturnedVar.isSome := by
  cases returned : invoked.pReturnedVar <;> cases outputs : invoked.pOutputParamList <;>
    simp [Invoked.returnFlag, success, returned, outputs, flagReturnedValue, flagOutputParamList]

theorem returnFlag_outputs (success : invoked.asStatusCode = statusSuccess) :
    invoked.returnFlag &&& flagOutputParamList ≠ 0 ↔ invoked.pOutputParamList.isSome := by
  cases returned : invoked.pReturnedVar <;> cases outputs : invoked.pOutputParamList <;>
    simp [Invoked.returnFlag, success, returned, outputs, flagReturnedValue, flagOutputParamList]

theorem invoAnswerOctets_words (fits : AnswerFits machine server invoked) :
    getUlong machine (invoAnswerOctets machine server invoked) 0 =
        some (invoAnswerSize machine + (varsOctets machine server invoked.vars).length) ∧
      getUlong machine (invoAnswerOctets machine server invoked) (ulongSize machine) = some invoked.asStatusCode ∧
      getUlong machine (invoAnswerOctets machine server invoked) (2 * ulongSize machine) = some invoked.returnFlag ∧
      getUlong machine (invoAnswerOctets machine server invoked) (3 * ulongSize machine) =
        some (varsOctets machine server invoked.vars).length := by
  have size := fits.size
  rw [invoAnswerOctets, List.length_append, length_invoAnswerHead] at size
  simp only [invoAnswerOctets, invoAnswerHead, List.append_assoc]
  exact ⟨getUlong_front (by omega) _, getUlong_second fits.status _, getUlong_third returnFlag_small _,
    getUlong_fourth (by omega) _⟩

theorem receiveAnswer_spec (fits : AnswerFits machine server invoked) :
    receiveAnswer machine (invoAnswerOctets machine server invoked) = some (invoked.delivered server) := by
  obtain ⟨data, status, flag, arraySize⟩ := invoAnswerOctets_words fits
  have word := ulongSize_pos machine
  have size := fits.size
  rw [invoAnswerOctets, List.length_append, length_invoAnswerHead] at size
  have row := varsOctets_row fits.each
  have valid := row.validateArray (invoAnswerHead machine server invoked) []
  have counted := row.getVarCount (invoAnswerHead machine server invoked) []
  simp only [flatten_vars, List.append_nil, length_invoAnswerHead, List.length_map] at valid counted
  rw [← invoAnswerOctets] at valid counted
  have some_octets : invoAnswerOctets machine server invoked ≠ [] := by
    refine List.ne_nil_of_length_pos ?_
    rw [invoAnswerOctets, List.length_append, length_invoAnswerHead, answerSize]
    omega
  have second : answerSize machine + ulongSize machine = 2 * ulongSize machine := by simp only [answerSize]; omega
  have third : answerSize machine + 2 * ulongSize machine = 3 * ulongSize machine := by simp only [answerSize]; omega
  have accepted : invoAnswerValidate machine (invoAnswerOctets machine server invoked)
      (invoAnswerSize machine + (varsOctets machine server invoked.vars).length) = some true := by
    simp only [invoAnswerValidate, third, arraySize, Option.bind_eq_bind, Option.bind_some]
    rw [ulong_small (by omega), if_neg (by simp), valid]
  have status : getUlong machine (invoAnswerOctets machine server invoked) (answerSize machine) =
    some invoked.asStatusCode := status
  simp only [receiveAnswer, data, third, second, status, flag, arraySize, accepted, counted, Option.bind_eq_bind,
    Option.bind_some, some_octets, if_false, not_true_eq_false]
  rw [if_neg (by omega), Invoked.delivered]
  by_cases empty : invoked.vars = []
  next => simp [empty]
  have success : invoked.asStatusCode = statusSuccess := by
    by_contra failed
    simp [Invoked.vars, failed] at empty
  have outputs := outputs_read fits success
  simp only [returnFlag_returned success, returnFlag_outputs success, empty, List.length_eq_zero_iff, if_false]
  cases returned : invoked.pReturnedVar <;> cases listed : invoked.pOutputParamList <;>
    simp_all [returned_read fits success]

end Replies

end CcspCommon.SlapLoam
