import CcspCommon.AnscLpcConnector.Calls
import CcspCommon.SlapLoam.ImcpVariable
import CcspCommon.SlapVarHelper.ParamList

set_option autoImplicit false

namespace CcspCommon.SlapLoam

open CcspCommon.AnscAsn1 (ulongSize)
open CcspCommon.AnscLpcConnector (LpcError)
open CcspCommon.AnscLpcConnector.System (Dispatched)
open CcspCommon.AnscPlatform
open CcspCommon.Shared (writeAt)
open CcspCommon.SlapVarHelper (capacity)

section Messages

def callTypeInvo : Nat := 5

def flagReturnedValue : Nat := 1

def flagOutputParamList : Nat := 2

def statusSuccess : Nat := 0

def statusFailure : Nat := 0xFFFFFFFF

variable (machine : Machine)

def callSize : Nat := 2 * ulongSize machine

def invoCallSize : Nat := 3 * ulongSize machine

def answerSize : Nat := ulongSize machine

def invoAnswerSize : Nat := 3 * ulongSize machine

section Arrays

variable (block : List UInt8)

/-- The loop of `ImcpSlapInvoCallValidate` and `ImcpSlapInvoAnswerValidate`, for a number of turns. One that goes
on behind them does not end: each turn takes a variable, and only one whose size is zero makes the array no
shorter. -/
def validateVars : Nat → Nat → Nat → Option Bool
  | 0, _, _ => none
  | turns + 1, var_array_size, imcp_slap_var => do
    if var_array_size = 0 then return true
    else if var_array_size < varHeaderSize machine then return false
    else
      let var_size ← getSize machine block imcp_slap_var
      if var_array_size < var_size then return false
      else validateVars turns (var_array_size - var_size) (imcp_slap_var + var_size)

def countVars : Nat → Nat → Nat → Option Nat
  | 0, _, _ => none
  | turns + 1, var_array_size, imcp_slap_var => do
    if var_array_size < varHeaderSize machine then return 0
    else
      let var_size ← getSize machine block imcp_slap_var
      if var_array_size < var_size then return 0
      else return (← countVars turns (var_array_size - var_size) (imcp_slap_var + var_size)) + 1

def validateArray (var_array_size first : Nat) : Option Bool :=
  validateVars machine block (var_array_size + 1) var_array_size first

def getVarCount (var_array_size first : Nat) : Option Nat :=
  countVars machine block (var_array_size + 1) var_array_size first

def getVarByIndex (first : Nat) : Nat → Option Nat
  | 0 => some first
  | var_index + 1 => do
    let imcp_slap_var ← getVarByIndex first var_index
    return imcp_slap_var + (← getSize machine block imcp_slap_var)

def paramsFrom (first start count : Nat) : Option (List SlapVariable) :=
  if capacity < count - start then none
  else (List.range' start (count - start)).mapM fun i => do
    convFromImcpVar machine block (← getVarByIndex machine block first i)

end Arrays

end Messages

section Client

variable (machine : Machine)

def nextVar (block : List UInt8) (first : Nat) : Option Nat → Option Nat
  | some pImcpSlapVar => (pImcpSlapVar + ·) <$> getSize machine block pImcpSlapVar
  | none => some first

def convParams (first : Nat) : Option Nat → List SlapVariable → List UInt8 → Option (List UInt8)
  | _, [], block => some block
  | pImcpSlapVar, param :: rest, block => do
    let imcp_var ← nextVar machine block first pImcpSlapVar
    let block ← convToImcpVar machine block param imcp_var
    convParams first (some imcp_var) rest block

def varArraySize (params : List SlapVariable) : Nat :=
  params.foldl (fun size param => ulong machine (size + getVarSize machine param)) 0

def invoCall (hSlapObject : Nat) (method_name : List UInt8) (params_in : List SlapVariable) : Option (List UInt8) := do
  let word := ulongSize machine
  let ulImcpVarArraySize := varArraySize machine params_in
  let ulCallDataSize := ulong machine (invoCallSize machine + method_name.length + ulImcpVarArraySize)
  let block := List.replicate (ulong machine (callSize machine + ulCallDataSize)) 0
  let block ← setUlong machine block 0 callTypeInvo
  let block ← setUlong machine block word ulCallDataSize
  let block ← setUlong machine block (2 * word) hSlapObject
  let block ← setUlong machine block (3 * word) method_name.length
  let block ← setUlong machine block (4 * word) ulImcpVarArraySize
  let block ← writeAt block (5 * word) method_name
  let nameSize ← getUlong machine block (3 * word)
  convParams machine (5 * word + nameSize) none params_in block

structure InvokeResult where
  returnStatus : Nat
  params_out : Option (List SlapVariable)
  return_var : Option SlapVariable
deriving DecidableEq, Repr

def invoAnswerValidate (block : List UInt8) (a_size : Nat) : Option Bool := do
  let var_array_size ← getUlong machine block (answerSize machine + 2 * ulongSize machine)
  if a_size ≠ ulong machine (invoAnswerSize machine + var_array_size) then return false
  else validateArray machine block var_array_size (answerSize machine + invoAnswerSize machine)

def receiveAnswer (block : List UInt8) : Option InvokeResult := do
  let failure : InvokeResult := ⟨statusFailure, none, none⟩
  if block = [] then return failure
  let a_size ← getUlong machine block 0
  if a_size < invoAnswerSize machine then return failure
  if ¬(← invoAnswerValidate machine block a_size) then return failure
  let returnStatus ← getUlong machine block (answerSize machine)
  let ulInvoReturnFlag ← getUlong machine block (answerSize machine + ulongSize machine)
  let var_array_size ← getUlong machine block (answerSize machine + 2 * ulongSize machine)
  let first := answerSize machine + invoAnswerSize machine
  let ulImcpVarCount ← getVarCount machine block var_array_size first
  if ulImcpVarCount = 0 then return ⟨returnStatus, none, none⟩
  let return_var ←
    if ulInvoReturnFlag &&& flagReturnedValue ≠ 0 then some <$> convFromImcpVar machine block first else some none
  let params_out ←
    if ulInvoReturnFlag &&& flagOutputParamList ≠ 0 then
      some <$> paramsFrom machine block first (if return_var.isSome then 1 else 0) ulImcpVarCount
    else some none
  return ⟨returnStatus, params_out, return_var⟩

end Client

section Server

structure Invoked where
  asStatusCode : Nat
  pOutputParamList : Option (List SlapVariable)
  pReturnedVar : Option SlapVariable

structure LoamServer where
  bActive : Bool
  invokeObject : Nat → List UInt8 → List SlapVariable → Invoked
  objType : Nat → Nat
  objName : Nat → List UInt8
  processCall : Nat → List UInt8 → Dispatched

variable (machine : Machine) (server : LoamServer)

def SlapVariable.slapObject (slap_var : SlapVariable) : Option Nat :=
  match slap_var.variant with
  | .object varObject => if varObject = 0 then none else some varObject
  | _ => none

def answerVarSize (slap_var : SlapVariable) : Nat :=
  getVarSize machine slap_var +
    match slap_var.slapObject with
    | some varObject => ulongSize machine + (server.objName varObject).length + 1
    | none => 0

def answerVar (block : List UInt8) (slap_var : SlapVariable) (imcp_var : Nat) : Option (List UInt8) := do
  let block ← convToImcpVar machine block slap_var imcp_var
  match slap_var.slapObject with
  | some varObject =>
    let block ← setFlags machine block imcp_var (flagObjType ||| flagObjName)
    let block ← appendUlong machine block imcp_var (server.objType varObject)
    appendString machine block imcp_var (server.objName varObject)
  | none => some block

def answerVars : List SlapVariable → Nat → List UInt8 → Option (List UInt8)
  | [], _, block => some block
  | slap_var :: rest, imcp_var, block => do
    let block ← answerVar machine server block slap_var imcp_var
    answerVars rest (imcp_var + (← getSize machine block imcp_var)) block

namespace Invoked

variable (invoked : Invoked)

def vars : List SlapVariable :=
  if invoked.asStatusCode = statusSuccess then invoked.pReturnedVar.toList ++ invoked.pOutputParamList.getD [] else []

def returnFlag : Nat :=
  if invoked.asStatusCode = statusSuccess then
    (if invoked.pReturnedVar.isSome then flagReturnedValue else 0) |||
      if invoked.pOutputParamList.isSome then flagOutputParamList else 0
  else 0

end Invoked

def invoAnswer (invoked : Invoked) : Option (List UInt8) := do
  let word := ulongSize machine
  let ulImcpVarArraySize :=
    invoked.vars.foldl (fun size slap_var => ulong machine (size + answerVarSize machine server slap_var)) 0
  let ulAnswerDataSize := ulong machine (invoAnswerSize machine + ulImcpVarArraySize)
  let block := List.replicate (ulong machine (answerSize machine + ulAnswerDataSize)) 0
  let block ← setUlong machine block 0 ulAnswerDataSize
  let block ← setUlong machine block word invoked.asStatusCode
  let block ← setUlong machine block (2 * word) invoked.returnFlag
  let block ← setUlong machine block (3 * word) ulImcpVarArraySize
  if invoked.asStatusCode = statusSuccess ∧ 0 < ulImcpVarArraySize then
    answerVars machine server invoked.vars (answerSize machine + invoAnswerSize machine) block
  else some block

def invoCallValidate (invo_call : List UInt8) : Option Bool := do
  let word := ulongSize machine
  if invo_call.length < invoCallSize machine then return false
  let nameSize ← getUlong machine invo_call word
  let var_array_size ← getUlong machine invo_call (2 * word)
  if invo_call.length ≠ ulong machine (invoCallSize machine + nameSize + var_array_size) then return false
  else if nameSize = 0 then return false
  else validateArray machine invo_call var_array_size (3 * word + nameSize)

def processCallInvo (pInputBuffer : List UInt8) : Option Dispatched := do
  let word := ulongSize machine
  let invalid : Dispatched := ⟨false, LpcError.invalidReqData.code, []⟩
  if ¬(← invoCallValidate machine pInputBuffer) then return invalid
  let hSlapObject ← getUlong machine pInputBuffer 0
  if hSlapObject = 0 then return invalid
  let nameSize ← getUlong machine pInputBuffer word
  -- The copy has a zero behind it.
  let pMethodName := ((pInputBuffer.drop (3 * word)).take nameSize).takeWhile (· ≠ 0)
  let var_array_size ← getUlong machine pInputBuffer (2 * word)
  let first := 3 * word + nameSize
  let ulImcpVarCount ← getVarCount machine pInputBuffer var_array_size first
  let pInputParamList ← paramsFrom machine pInputBuffer first 0 ulImcpVarCount
  let output ← invoAnswer machine server (server.invokeObject hSlapObject pMethodName pInputParamList)
  return ⟨true, LpcError.noError.code, output⟩

def callDispatch (pInputBuffer : List UInt8) : Option Dispatched := do
  let word := ulongSize machine
  if ¬server.bActive then return ⟨false, LpcError.connectorReset.code, []⟩
  if pInputBuffer.length < callSize machine then return ⟨false, LpcError.invalidReqData.code, []⟩
  let size ← getUlong machine pInputBuffer word
  if pInputBuffer.length ≠ callSize machine + size then return ⟨false, LpcError.invalidReqData.code, []⟩
  let callType ← getUlong machine pInputBuffer 0
  if callType = callTypeInvo then processCallInvo machine server (pInputBuffer.drop (callSize machine))
  else return server.processCall callType (pInputBuffer.drop (callSize machine))

end Server

end CcspCommon.SlapLoam
