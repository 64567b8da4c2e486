import CcspCommon.Shared.Text
import CcspCommon.Shared.Decimal

set_option autoImplicit false

namespace CcspCommon.DslhVarRecord

open CcspCommon.Shared

inductive CwmpDataType
  | unspecified | object | string | int | unsignedInt | boolean | dateTime | base64
  deriving DecidableEq, Repr

def CwmpDataType.code : CwmpDataType → Nat
  | .unspecified => 0
  | .object => 1
  | .string => 2
  | .int => 3
  | .unsignedInt => 4
  | .boolean => 5
  | .dateTime => 6
  | .base64 => 7

inductive SlapSyntax
  | other | bool | int | string | ucharArray | uint32 | uint32Array | handle
  deriving DecidableEq, Repr

inductive ContentType
  | unspecified | mapped | ip4Addr | ip4AddrWildcard | macAddr | ip4AddrList | macAddrList
  | tcpudpPort | calendarTime | password | masked | oidList | asciiString | hexString | urlString
  | subnetMask | ip6Addr | ip6AddrList | ip4AddrRangeList | presentation
  deriving DecidableEq, Repr

inductive SlapVariable
  | varBool (value : Bool)
  | varInt (value : Int)
  | varUint32 (value : Nat)
  | varString (value : Option Text)
  | varOther
  deriving DecidableEq, Repr

/-- entities with a content type other than unspecified carry strings, so the union is
never read as a pointer when it holds a number -/
def SlapVariable.string? : SlapVariable → Option Text
  | .varString value => value
  | _ => none

structure VarEntity where
  name : Text
  dataType : CwmpDataType
  slapSyntax : SlapSyntax
  contentType : ContentType
  formatValue1 : Nat
  formatValue2 : Nat
  tokenTable : Option (List (Text × Nat))
  preventCharecters : Option Text
  bInvisible : Bool
  bPersistent : Bool
  bWritable : Bool
  bMonitor : Bool
  bNeedReboot : Bool
  notifyStatus : Nat

/-- The string checkers and converters that `DslhVarroTstValue` calls. `isValid` is the checker of the content
type, `converts` whether the converter of the content type returns an object. -/
structure Converters where
  isValidBase64String : Option Text → Bool
  isValid : ContentType → Text → Bool
  converts : ContentType → Text → Bool
  stringToIp4Addr : Text → Nat

structure VarRecord where
  tempParamValue : Option SlapVariable
  tempParamValueTrans : Option SlapVariable
  oldParamValue : Option SlapVariable
  bAlreadySet : Bool
  reqSenderID : Nat
  bUserChanged : Bool
  bUserChangeFlagLoaded : Bool
  deriving DecidableEq, Repr

namespace VarEntity

variable (entity : VarEntity)

def getTokenValueByString (string : Text) : Option Nat :=
  ((entity.tokenTable.getD []).find? fun token => token.1 = string).map Prod.snd

def withinLength (string : Option Text) : Bool :=
  match string with
  | none => true
  | some text => entity.formatValue1 = 0 || entity.formatValue1 = 0xFFFFFFFF ||
      text.length ≤ entity.formatValue1

def allowedCharacters (string : Option Text) : Bool :=
  match string, entity.preventCharecters with
  | some text, some invalid => text.all fun c => !invalid.contains c
  | _, _ => true

def hasChecker : ContentType → Bool
  | .ip4Addr | .macAddr | .ip4AddrList | .ip4AddrRangeList | .ip6Addr | .ip6AddrList
  | .macAddrList | .hexString | .calendarTime | .urlString | .subnetMask => true
  | _ => false

def validContent (converters : Converters) (string : Option Text) : Bool :=
  if entity.tokenTable.isSome && entity.contentType = .mapped then
    match string with
    | none => false
    | some text => (entity.getTokenValueByString text).isSome
  else
    match string with
    | none => true
    | some text => !hasChecker entity.contentType || converters.isValid entity.contentType text

def asInt (value : Nat) : Int := (BitVec.ofNat 32 value).toInt

def dataTypeAccepts (converters : Converters) (value : SlapVariable) : Bool :=
  match entity.dataType, value with
  | .base64, .varString string =>
    entity.withinLength string && converters.isValidBase64String string
  | .dateTime, .varString (some text) =>
    (text.length = entity.formatValue1 || text.length = entity.formatValue1 + 1) &&
      entity.validContent converters (some text)
  | .string, .varString string =>
    entity.withinLength string && entity.allowedCharacters string &&
      entity.validContent converters string
  | .int, .varInt value => asInt entity.formatValue1 ≤ value && value ≤ asInt entity.formatValue2
  | .unsignedInt, .varUint32 value => entity.formatValue1 ≤ value && value ≤ entity.formatValue2
  | .boolean, .varBool _ | .boolean, .varInt _ | .boolean, .varUint32 _ => true
  | _, _ => false

def acceptsNull : ContentType → Bool
  | .ip4AddrList | .ip4Addr | .ip4AddrWildcard | .hexString | .calendarTime | .urlString
  | .subnetMask | .macAddr | .ip6Addr | .ip6AddrList | .macAddrList | .ip4AddrRangeList => true
  | _ => false

def translate (converters : Converters) (value : SlapVariable) : Option (Option SlapVariable) :=
  match entity.contentType with
  | .unspecified =>
    match entity.slapSyntax with
    | .bool | .int | .string | .ucharArray | .uint32 | .handle => some none
    | .other | .uint32Array => none
  | contentType =>
    match value.string? with
    | none => if acceptsNull contentType then some none else none
    | some text =>
      match contentType with
      | .mapped => (entity.getTokenValueByString text).map fun code => some (.varUint32 code)
      | .ip4Addr | .subnetMask | .ip4AddrWildcard =>
        some (some (.varUint32 (if text = [] then 0 else converters.stringToIp4Addr text)))
      | .macAddr | .ip6Addr | .ip6AddrList | .ip4AddrList | .macAddrList | .calendarTime =>
        if converters.converts contentType text then some (some (.varString (some text))) else none
      | .ip4AddrRangeList => some (some (.varString (some text)))
      | .hexString | .urlString => some none
      | _ => none

end VarEntity

namespace VarRecord

def create : VarRecord where
  tempParamValue := none
  tempParamValueTrans := none
  oldParamValue := none
  bAlreadySet := false
  reqSenderID := 0
  bUserChanged := false
  bUserChangeFlagLoaded := false

-- `DslhVarroTstValue`: no result when the value is rejected, otherwise the record with the value
-- stored. A translation left by an earlier value is not dropped.
def tstValue (converters : Converters) (entity : VarEntity) (hasController bGroupCommit : Bool)
    (record : VarRecord) (value : SlapVariable) : Option VarRecord :=
  if entity.dataTypeAccepts converters value && hasController then
    (entity.translate converters value).map fun translated =>
      { record with
        tempParamValueTrans := translated.orElse fun _ => record.tempParamValueTrans
        tempParamValue :=
          if entity.bPersistent || bGroupCommit then some value else record.tempParamValue }
  else none

def dropChange (record : VarRecord) : VarRecord :=
  { record with
    tempParamValue := none
    tempParamValueTrans := none
    oldParamValue := none
    bAlreadySet := false }

def isParamUpdated (record : VarRecord) : Bool :=
  record.tempParamValue.isSome && !record.bAlreadySet

def getParamValue (record : VarRecord) : Option SlapVariable :=
  record.tempParamValueTrans.orElse fun _ => record.tempParamValue

def defaultValue : SlapSyntax → SlapVariable
  | .bool => .varBool true
  | .string => .varString none
  | .int => .varInt 0
  | .uint32 => .varUint32 0
  | _ => .varOther

def getValue (entity : VarEntity) (bGroupCommit : Bool) (controller : Option SlapVariable)
    (record : VarRecord) : Option SlapVariable :=
  match record.tempParamValue with
  | some pending =>
    if entity.bPersistent && bGroupCommit then some pending
    else if entity.bPersistent then some (defaultValue entity.slapSyntax)
    else controller
  | none => if entity.bPersistent then some (defaultValue entity.slapSyntax) else controller

end VarRecord

end CcspCommon.DslhVarRecord
