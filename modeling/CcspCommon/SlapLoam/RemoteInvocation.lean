import CcspCommon.AnscLpcConnector.CallMatching
import CcspCommon.SlapLoam.AnswerCodec

set_option autoImplicit false

namespace CcspCommon.SlapLoam

open CcspCommon.AnscLpcConnector
open CcspCommon.AnscLpcConnector.System (Dispatched)
open CcspCommon.AnscPlatform
open CcspCommon.HttpSmpo (ascii)
open CcspCommon.Shared

section Transparency

variable {machine : Machine} {server : LoamServer} {hSlapObject : Nat} {method_name : List UInt8}
  {params : List SlapVariable}

def LoamServer.invoke (server : LoamServer) (hSlapObject : Nat) (method_name : List UInt8)
    (params : List SlapVariable) :
    Invoked :=
  server.invokeObject hSlapObject method_name (params.map SlapVariable.received)

theorem invocation_travels (active : server.bActive) (call : CallFits machine hSlapObject method_name params)
    (answer : AnswerFits machine server (server.invoke hSlapObject method_name params)) :
    ∃ request output, invoCall machine hSlapObject method_name params = some request ∧
      callDispatch machine server request = some ⟨true, LpcError.noError.code, output⟩ ∧
      receiveAnswer machine output = some ((server.invoke hSlapObject method_name params).delivered server) := by
  refine ⟨_, _, invoCall_spec call, ?_, receiveAnswer_spec answer⟩
  rw [callDispatch_spec server active call, ← LoamServer.invoke, invoAnswer_spec answer, Option.map_some]

def numberVar (varUint32 : Nat) : SlapVariable := ⟨none, 0, 0, 0, .uint32 varUint32⟩

def boxServer : LoamServer where
  bActive := true
  invokeObject hSlapObject _ params := ⟨statusSuccess, some params, some ⟨none, 0, 0, 0, .object hSlapObject⟩⟩
  objType _ := 1
  objName _ := ascii "box"
  processCall _ _ := ⟨false, LpcError.invalidReqType.code, []⟩

theorem numberVar_fits : (numberVar 7).Fits ⟨.four, true, true⟩ where
  contentType := by decide
  variant := by decide
  size := by decide

theorem boxCall_fits : CallFits ⟨.four, true, true⟩ 5 (ascii "get") [numberVar 7] where
  object := by decide
  named := by decide
  room := by decide
  each := by simpa using numberVar_fits
  size := by decide

theorem boxAnswer_fits : AnswerFits ⟨.four, true, true⟩ boxServer (boxServer.invoke 5 (ascii "get") [numberVar 7]) where
  status := by decide
  room := by decide
  each := by
    have returned : AnswerVarFits ⟨.four, true, true⟩ boxServer ⟨none, 0, 0, 0, .object 5⟩ := {
      fits := ⟨by decide, by decide, by decide⟩
      named := fun _ _ => show 0 ∉ ascii "box" by decide
      size := by decide }
    have output : AnswerVarFits ⟨.four, true, true⟩ boxServer (numberVar 7) := {
      fits := numberVar_fits
      named := nofun
      size := by decide }
    have vars : (boxServer.invoke 5 (ascii "get") [numberVar 7]).vars = [⟨none, 0, 0, 0, .object 5⟩, numberVar 7] := rfl
    simpa [vars] using And.intro returned output
  size := by decide

theorem invocation_travels_box : ∃ request output,
    invoCall ⟨.four, true, true⟩ 5 (ascii "get") [numberVar 7] = some request ∧
      callDispatch ⟨.four, true, true⟩ boxServer request = some ⟨true, LpcError.noError.code, output⟩ ∧
      receiveAnswer ⟨.four, true, true⟩ output =
        some ((boxServer.invoke 5 (ascii "get") [numberVar 7]).delivered boxServer) :=
  invocation_travels rfl boxCall_fits boxAnswer_fits

end Transparency

section Runs

variable {network : Network} {servers : Peer → Set LoamServer} {system : System}

def Served (network : Network) (servers : Peer → Set LoamServer) (system : System) : System.Action → Prop
  | .dispatch entry dispatched =>
    entry.reqType = lpcCall →
      ∃ server ∈ servers entry.callee, callDispatch network.machine server entry.reqData = some dispatched
  | action => system.Allowed action

theorem Served.allowed {action : System.Action} (served : Served network servers system action) :
    system.Allowed action := by
  cases action <;> first | exact served | trivial

def Answered (network : Network) (servers : Peer → Set LoamServer) (system : System) : Prop :=
  ∀ answer ∈ system.answers, answer.reqType = lpcCall →
    ∃ server ∈ servers answer.callee, ∃ dispatched,
      callDispatch network.machine server answer.reqData = some dispatched ∧
        answer.repCode = System.travels dispatched.ulErrorCode ∧
        answer.repData =
          if dispatched.success ∧ dispatched.ulErrorCode = LpcError.noError.code then dispatched.output else []

theorem Answered.step {next : System} (answered : Answered network servers system) {action : System.Action}
    (served : Served network servers system action) (run : system.step network action = some next) :
    Answered network servers next := by
  by_cases dispatching : ∃ entry dispatched, action = .dispatch entry dispatched
  next =>
    obtain ⟨entry, dispatched, rfl⟩ := dispatching
    simp only [System.step, System.dispatch, Option.ite_none_right_eq_some, Option.some.injEq] at run
    obtain ⟨-, rfl⟩ := run
    intro answer member call
    rw [List.mem_append, List.mem_singleton] at member
    obtain old | rfl := member
    next => exact answered answer old call
    obtain ⟨server, own, same⟩ := served call
    refine ⟨server, own, dispatched, same, ?_⟩
    have other : lpcCall ≠ queryParty := by decide
    simp only [System.answerTo, show entry.reqType = lpcCall from call, other, if_false, if_true]
    split <;> simp
  next =>
    have same := answers_step run fun entry dispatched same => dispatching ⟨entry, dispatched, same⟩
    rwa [Answered, same]

theorem Answered.run
    (reached : Reachable (System.step network) (Served network servers) (System.start network) system) :
    Answered network servers system :=
  reached.invariant (by simp [Answered, System.start]) fun _ _ _ answered served run => answered.step served run

def boxServers : Peer → Set LoamServer := fun _ => {boxServer}

def BoxServed (system : System) : System.Action → Prop
  | .dispatch entry dispatched => callDispatch pair.machine boxServer entry.reqData = some dispatched
  | action => system.Allowed action

instance (system : System) : (action : System.Action) → Decidable (BoxServed system action)
  | .dispatch entry dispatched =>
    inferInstanceAs (Decidable (callDispatch pair.machine boxServer entry.reqData = some dispatched))
  | .acquire peer id => inferInstanceAs (Decidable (system.Allowed (.acquire peer id)))
  | .overwrite .. => isFalse id
  | .enter .. | .enter2 .. | .link .. | .request .. | .check .. | .expire .. | .write .. | .deliver .. | .popAll ..
  | .removeSocket .. | .connectToManager .. => isTrue trivial

theorem BoxServed.served (system : System) (action : System.Action) (served : BoxServed system action) :
    Served pair boxServers system action := by
  cases action <;> first | exact fun _ => ⟨boxServer, rfl, served⟩ | exact served

end Runs

end CcspCommon.SlapLoam
