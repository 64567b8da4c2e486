import CcspCommon.AnscPlatform.NetworkOrder
import CcspCommon.Shared.Block

set_option autoImplicit false

namespace CcspCommon.SlapLoam

open CcspCommon.AnscAsn1 (ulongSize networkMemory)
open CcspCommon.AnscPlatform
open CcspCommon.Shared (writeAt)

section Variables

-- `Syntax` and `Variant` of a `SLAP_VARIABLE`. NULL is none; a variable of any other syntax has no value that is
-- looked at.
inductive Variant
  | other (varSyntax : Nat) (unknown : varSyntax = 0 ∨ 16 < varSyntax)
  | bool (varBool : Nat)
  | boolArray (varBoolArray : Option (List Nat))
  | charArray (varCharArray : Option (List UInt8))
  | int (varInt : Int)
  | intArray (varIntArray : Option (List Int))
  | string (varString : Option (List UInt8))
  | stringArray (varStringArray : Option (List (Option (List UInt8))))
  | ucharArray (varUcharArray : Option (List UInt8))
  | uint32 (varUint32 : Nat)
  | uint32Array (varUint32Array : Option (List Nat))
  | ptr (varPtr : Nat)
  | ptrArray (varPtrArray : Option (List Nat))
  | handle (varHandle : Nat)
  | handleArray (varHandleArray : Option (List Nat))
  | object (varObject : Nat)
  | objectArray (varObjectArray : Option (List Nat))
deriving DecidableEq, Repr

def Variant.varSyntax : Variant → Nat
  | other varSyntax _ => varSyntax
  | bool _ => 1
  | boolArray _ => 2
  | charArray _ => 3
  | int _ => 4
  | intArray _ => 5
  | string _ => 6
  | stringArray _ => 7
  | ucharArray _ => 8
  | uint32 _ => 9
  | uint32Array _ => 10
  | ptr _ => 11
  | ptrArray _ => 12
  | handle _ => 13
  | handleArray _ => 14
  | object _ => 15
  | objectArray _ => 16

structure SlapVariable where
  name : Option (List UInt8)
  contentType : Nat
  usageType : Nat
  reqSenderID : Nat
  variant : Variant
deriving DecidableEq, Repr

def flagObjType : Nat := 1

def flagObjName : Nat := 2

def intSize : Nat := 4

end Variables

section Accesses

variable (machine : Machine)

-- `AnscUlongFromNToH` of `AnscReadUlong`; there is no result where it would leave the block.
def getUlong (block : List UInt8) (place : Nat) : Option Nat :=
  if place + ulongSize machine ≤ block.length then some (ulongFromNToH machine (block.drop place)) else none

def setUlong (block : List UInt8) (place value : Nat) : Option (List UInt8) :=
  writeAt block place (networkMemory machine value)

def ulong (value : Nat) : Nat := value % 2 ^ (8 * ulongSize machine)

def intOfUlong (value : Nat) : Int :=
  if value % 2 ^ 32 < 2 ^ 31 then (value % 2 ^ 32 : Nat) else (value % 2 ^ 32 : Nat) - 2 ^ 32

def stringAt (block : List UInt8) (place : Nat) : Option (List UInt8) :=
  let octets := block.drop place
  if 0 ∈ octets then some (octets.takeWhile (· ≠ 0)) else none

def varHeaderSize : Nat := 4 * ulongSize machine

section Fields

variable (block : List UInt8) (imcp_var : Nat)

def getContentType : Option Nat := getUlong machine block imcp_var

def getSyntax : Option Nat := getUlong machine block (imcp_var + ulongSize machine)

def getLength : Option Nat := getUlong machine block (imcp_var + 2 * ulongSize machine)

def getFlags : Option Nat := getUlong machine block (imcp_var + 3 * ulongSize machine)

def getData : Nat := imcp_var + varHeaderSize machine

def getSize : Option Nat := return ulong machine ((← getLength machine block imcp_var) + varHeaderSize machine)

def setLength (length : Nat) : Option (List UInt8) := setUlong machine block (imcp_var + 2 * ulongSize machine) length

def setFlags (flags : Nat) : Option (List UInt8) := setUlong machine block (imcp_var + 3 * ulongSize machine) flags

def appendData (data : List UInt8) : Option (List UInt8) := do
  let var_length ← getLength machine block imcp_var
  let block ← writeAt block (getData machine imcp_var + var_length) data
  setLength machine block imcp_var (ulong machine (var_length + data.length))

def appendUchar (tbp_uchar : UInt8) : Option (List UInt8) := appendData machine block imcp_var [tbp_uchar]

def appendUlong (tbp_ulong : Nat) : Option (List UInt8) :=
  appendData machine block imcp_var (networkMemory machine tbp_ulong)

def appendString (tbp_string : List UInt8) : Option (List UInt8) :=
  appendData machine block imcp_var (tbp_string ++ [0])

end Fields

end Accesses

section Conversions

variable (machine : Machine)

-- What is counted for the data. An array that is NULL counts as an empty one.
def Variant.dataSize : Variant → Nat
  | other .. => 0
  | bool _ | uint32 _ | ptr _ | handle _ | object _ => ulongSize machine
  | int _ => intSize
  | boolArray array | uint32Array array | ptrArray array | handleArray array | objectArray array =>
    ulongSize machine * (array.getD []).length
  | intArray array => intSize * (array.getD []).length
  | charArray array | ucharArray array => (array.getD []).length
  | string none => 0
  | string (some varString) => varString.length + 1
  | stringArray array => ((array.getD []).map fun element => (element.getD []).length + 1).sum

def getVarSize (slap_var : SlapVariable) : Nat :=
  ulong machine (varHeaderSize machine + slap_var.variant.dataSize machine)

def startImcpVar (block : List UInt8) (contentType varSyntax imcp_var : Nat) : Option (List UInt8) := do
  let block ← setUlong machine block imcp_var contentType
  let block ← setUlong machine block (imcp_var + ulongSize machine) varSyntax
  let block ← setLength machine block imcp_var 0
  setFlags machine block imcp_var 0

def appendVariant (block : List UInt8) (imcp_var : Nat) : Variant → Option (List UInt8)
  | .other .. => some block
  | .bool value | .uint32 value | .ptr value | .handle value | .object value =>
    appendUlong machine block imcp_var value
  | .int value => appendUlong machine block imcp_var (ulongOfInt machine value)
  | .boolArray array | .uint32Array array | .ptrArray array | .handleArray array | .objectArray array =>
    (array.getD []).foldlM (fun block value => appendUlong machine block imcp_var value) block
  | .intArray array =>
    (array.getD []).foldlM (fun block value => appendUlong machine block imcp_var (ulongOfInt machine value)) block
  | .charArray array | .ucharArray array =>
    (array.getD []).foldlM (fun block value => appendUchar machine block imcp_var value) block
  | .string none => some block
  | .string (some varString) => appendString machine block imcp_var varString
  | .stringArray array =>
    (array.getD []).foldlM (fun block element =>
      match element with
      | some value => appendString machine block imcp_var value
      | none => appendUchar machine block imcp_var 0) block

def convToImcpVar (block : List UInt8) (slap_var : SlapVariable) (imcp_var : Nat) : Option (List UInt8) := do
  let block ← startImcpVar machine block slap_var.contentType slap_var.variant.varSyntax imcp_var
  appendVariant machine block imcp_var slap_var.variant

section Arrays

variable (block : List UInt8) (imcp_var_data imcp_var_length : Nat)

def ulongsFromImcpVar : Nat → Nat → Option (List Nat)
  | _, 0 => some []
  | var_point, count + 1 => do
    let value ← getUlong machine block var_point
    return value :: (← ulongsFromImcpVar (var_point + ulongSize machine) count)

def allocUlongArrayFromImcpVar : Option (List Nat) :=
  ulongsFromImcpVar machine block imcp_var_data (imcp_var_length / ulongSize machine)

-- The count goes by the size of an `int`, and the pointer by that of a `ULONG`.
def allocIntArrayFromImcpVar : Option (List Int) :=
  return (← ulongsFromImcpVar machine block imcp_var_data (imcp_var_length / intSize)).map intOfUlong

def allocUcharArrayFromImcpVar : Option (List UInt8) :=
  if imcp_var_data + imcp_var_length ≤ block.length then some ((block.drop imcp_var_data).take imcp_var_length)
  else none

def stringsFromImcpVar : Nat → Nat → Option (List (Option (List UInt8)))
  | _, 0 => some []
  | var_point, count + 1 => do
    let value ← stringAt block var_point
    return some value :: (← stringsFromImcpVar (var_point + value.length + 1) count)

-- There are as many strings as there are zeros.
def allocStringArrayFromImcpVar : Option (List (Option (List UInt8))) := do
  let octets ← allocUcharArrayFromImcpVar block imcp_var_data imcp_var_length
  stringsFromImcpVar block imcp_var_data (octets.count 0)

end Arrays

def nameFromImcpVar (block : List UInt8) (imcp_var varSyntax : Nat) : Option (Option (List UInt8)) := do
  if varSyntax = 15 then
    let flags ← getFlags machine block imcp_var
    if flags &&& flagObjType ≠ 0 ∧ flags &&& flagObjName ≠ 0 then
      return some (← stringAt block (getData machine imcp_var + 2 * ulongSize machine))
  return none

def variantFromImcpVar (block : List UInt8) (imcp_var varSyntax : Nat) : Option Variant :=
  let data := getData machine imcp_var
  let length := getLength machine block imcp_var
  let ulongs := length.bind (allocUlongArrayFromImcpVar machine block data)
  let uchars := length.bind (allocUcharArrayFromImcpVar block data)
  match varSyntax with
  | 1 => Variant.bool <$> getUlong machine block data
  | 2 => (Variant.boolArray ∘ some) <$> ulongs
  | 3 => (Variant.charArray ∘ some) <$> uchars
  | 4 => (Variant.int ∘ intOfUlong) <$> getUlong machine block data
  | 5 => (Variant.intArray ∘ some) <$> length.bind (allocIntArrayFromImcpVar machine block data)
  | 6 => length.bind fun length =>
    if length = 0 then some (.string none) else (Variant.string ∘ some) <$> stringAt block data
  | 7 => (Variant.stringArray ∘ some) <$> length.bind (allocStringArrayFromImcpVar block data)
  | 8 => (Variant.ucharArray ∘ some) <$> uchars
  | 9 => Variant.uint32 <$> getUlong machine block data
  | 10 => (Variant.uint32Array ∘ some) <$> ulongs
  | 11 => Variant.ptr <$> getUlong machine block data
  | 12 => (Variant.ptrArray ∘ some) <$> ulongs
  | 13 => Variant.handle <$> getUlong machine block data
  | 14 => (Variant.handleArray ∘ some) <$> ulongs
  | 15 => Variant.object <$> getUlong machine block data
  | 16 => (Variant.objectArray ∘ some) <$> ulongs
  | varSyntax => if unknown : varSyntax = 0 ∨ 16 < varSyntax then some (.other varSyntax unknown) else none

def convFromImcpVar (block : List UInt8) (imcp_var : Nat) : Option SlapVariable := do
  let contentType ← getContentType machine block imcp_var
  let varSyntax ← getSyntax machine block imcp_var
  let name ← nameFromImcpVar machine block imcp_var varSyntax
  let variant ← variantFromImcpVar machine block imcp_var varSyntax
  return ⟨name, contentType, 0, 0, variant⟩

end Conversions

end CcspCommon.SlapLoam
