import CcspCommon.SlapLoam.Invocation
import CcspCommon.SlapLoam.VariableCodec

set_option autoImplicit false

namespace CcspCommon.SlapLoam

open CcspCommon.AnscAsn1 (ulongSize networkMemory)
open CcspCommon.AnscPlatform
open CcspCommon.SlapVarHelper (capacity)

section Sizes

variable {machine : Machine}

theorem ulong_small {value : Nat} (small : value < 2 ^ 32) : ulong machine value = value := by
  have bits : 2 ^ 32 ≤ 2 ^ (8 * ulongSize machine) := by
    obtain ⟨-, size⟩ | ⟨-, size⟩ := CcspCommon.AnscAsn1.ulongSize_cases machine <;> simp [size]
  exact Nat.mod_eq_of_lt (by omega)

theorem varHeaderSize_pos (machine : Machine) : 0 < varHeaderSize machine := by
  have := ulongSize_pos machine
  simp only [varHeaderSize]
  omega

structure Sent (machine : Machine) (octets : List UInt8) (value : SlapVariable) : Prop where
  header : varHeaderSize machine ≤ octets.length
  size : ∀ front back, getSize machine (front ++ (octets ++ back)) front.length = some octets.length
  reads : ∀ front back, convFromImcpVar machine (front ++ (octets ++ back)) front.length = some value

theorem getSize_packed {contentType varSyntax flags : Nat} {data : List UInt8}
    (small : data.length + varHeaderSize machine < 2 ^ 32) (front back : List UInt8) :
    getSize machine (front ++ (packed machine contentType varSyntax flags data ++ back)) front.length =
      some (packed machine contentType varSyntax flags data).length := by
  rw [getSize, getLength_packed front back (by omega), Option.bind_eq_bind, Option.bind_some, ulong_small small,
    length_packed, Nat.add_comm]
  rfl

theorem encode_sent {slap_var : SlapVariable} (fits : slap_var.Fits machine) :
    Sent machine (slap_var.encode machine) slap_var.received where
  header := by simp
  size := getSize_packed fits.size
  reads front back := convFromImcpVar_encode front fits back

theorem dataSize_eq {variant : Variant} (fits : variant.Fits machine) :
    variant.dataSize machine = (variant.octets machine).length := by
  cases variant with
  | int value => simp [Variant.dataSize, Variant.octets, fits.1]
  | intArray array => simp [Variant.dataSize, Variant.octets, List.length_flatMap, fits.1, Nat.mul_comm]
  | string varString => cases varString <;> simp [Variant.dataSize, Variant.octets]
  | _ => simp [Variant.dataSize, Variant.octets, List.length_flatMap, Nat.mul_comm]

theorem getVarSize_eq {slap_var : SlapVariable} (fits : slap_var.Fits machine) :
    getVarSize machine slap_var = (slap_var.encode machine).length := by
  have size := fits.size
  rw [length_encode, getVarSize, dataSize_eq fits.variant, ulong_small (by omega)]

end Sizes

section Scanning

variable {machine : Machine} {chunks : List (List UInt8)} {values : List SlapVariable}

def Row (machine : Machine) : List (List UInt8) → List SlapVariable → Prop := List.Forall₂ (Sent machine)

theorem Row.of_map {A : Type} {octets : A → List UInt8} {value : A → SlapVariable} {items : List A}
    (each : ∀ item ∈ items, Sent machine (octets item) (value item)) :
    Row machine (items.map octets) (items.map value) := by
  simpa [Row, List.forall₂_map_left_iff, List.forall₂_map_right_iff, List.forall₂_same] using each

theorem Sent.pos {octets : List UInt8} {value : SlapVariable} (sent : Sent machine octets value) : 0 < octets.length :=
  (varHeaderSize_pos machine).trans_le sent.header

theorem Row.length_le (row : Row machine chunks values) : chunks.length ≤ chunks.flatten.length := by
  induction row with
  | nil => simp
  | cons sent _ ih =>
    have := sent.pos
    simp only [List.length_cons, List.flatten_cons, List.length_append]
    omega

theorem Row.validateVars (row : Row machine chunks values) (front back : List UInt8) {turns : Nat}
    (enough : chunks.length < turns) :
    validateVars machine (front ++ (chunks.flatten ++ back)) turns chunks.flatten.length front.length = some true := by
  induction row generalizing front turns with
  | nil => cases turns <;> simp_all [SlapLoam.validateVars]
  | @cons chunk value chunks values sent row ih =>
    obtain _ | turns := turns
    next => simp at enough
    have pos := sent.pos
    have header := sent.header
    have later := ih (front ++ chunk) (Nat.lt_of_succ_lt_succ enough)
    simp only [List.length_append, List.append_assoc] at later
    simp only [List.flatten_cons, List.length_append, List.append_assoc, SlapLoam.validateVars]
    rw [if_neg (by omega), if_neg (by omega), sent.size, Option.bind_eq_bind, Option.bind_some, if_neg (by omega),
      Nat.add_sub_cancel_left, later]

theorem Row.countVars (row : Row machine chunks values) (front back : List UInt8) {turns : Nat}
    (enough : chunks.length < turns) :
    countVars machine (front ++ (chunks.flatten ++ back)) turns chunks.flatten.length front.length =
      some chunks.length := by
  induction row generalizing front turns with
  | nil =>
    have := varHeaderSize_pos machine
    cases turns <;> simp_all [SlapLoam.countVars]
  | @cons chunk value chunks values sent row ih =>
    obtain _ | turns := turns
    next => simp at enough
    have header := sent.header
    have later := ih (front ++ chunk) (Nat.lt_of_succ_lt_succ enough)
    simp only [List.length_append, List.append_assoc] at later
    simp only [List.flatten_cons, List.length_append, List.append_assoc, SlapLoam.countVars]
    rw [if_neg (by omega), sent.size, Option.bind_eq_bind, Option.bind_some, if_neg (by omega),
      Nat.add_sub_cancel_left, later]
    rfl

theorem Row.validateArray (row : Row machine chunks values) (front back : List UInt8) :
    validateArray machine (front ++ (chunks.flatten ++ back)) chunks.flatten.length front.length = some true :=
  row.validateVars front back (Nat.lt_succ_of_le row.length_le)

theorem Row.getVarCount (row : Row machine chunks values) (front back : List UInt8) :
    getVarCount machine (front ++ (chunks.flatten ++ back)) chunks.flatten.length front.length = some chunks.length :=
  row.countVars front back (Nat.lt_succ_of_le row.length_le)

theorem getVarByIndex_succ (block : List UInt8) (first var_index : Nat) :
    getVarByIndex machine block first (var_index + 1) =
      (getSize machine block first).bind fun size => getVarByIndex machine block (first + size) var_index := by
  induction var_index with
  | zero => rfl
  | succ var_index ih =>
    rw [getVarByIndex, ih]
    cases getSize machine block first <;> rfl

theorem Row.getVarByIndex (row : Row machine chunks values) (front back : List UInt8) :
    getVarByIndex machine (front ++ (chunks.flatten ++ back)) front.length chunks.length =
      some (front ++ chunks.flatten).length := by
  induction row generalizing front with
  | nil => simp [SlapLoam.getVarByIndex]
  | @cons chunk value chunks values sent row ih =>
    have later := ih (front ++ chunk)
    simp only [List.length_append, List.append_assoc] at later
    simp only [List.flatten_cons, List.length_cons, List.append_assoc, getVarByIndex_succ, sent.size, Option.bind_some,
      later, List.length_append]

theorem Row.mapM {before after : List (List UInt8)} {early late : List SlapVariable} (first : Row machine before early)
    (row : Row machine after late) (front back : List UInt8) :
    ((List.range' before.length after.length).mapM fun i => do
      convFromImcpVar machine (front ++ (before.flatten ++ (after.flatten ++ back)))
        (← SlapLoam.getVarByIndex machine (front ++ (before.flatten ++ (after.flatten ++ back))) front.length i)) =
      some late := by
  induction row generalizing before early with
  | nil => rfl
  | @cons chunk value after late sent row ih =>
    have place := first.getVarByIndex front (chunk ++ (after.flatten ++ back))
    have read := sent.reads (front ++ before.flatten) (after.flatten ++ back)
    have grown : Row machine (before ++ [chunk]) (early ++ [value]) :=
      List.rel_append first (.cons sent .nil)
    have later := ih grown
    simp only [List.flatten_append, List.flatten_cons, List.flatten_nil, List.append_nil, List.append_assoc,
      List.length_append, List.length_singleton, Option.bind_eq_bind] at later read place
    simp only [List.flatten_cons, List.length_cons, List.append_assoc, List.range'_succ, List.mapM_cons, place,
      Option.bind_eq_bind, Option.bind_some, read, later, Option.pure_def]

theorem Row.paramsFrom {before after : List (List UInt8)} {early late : List SlapVariable}
    (first : Row machine before early) (row : Row machine after late) (room : after.length ≤ capacity)
    (front back : List UInt8) :
    paramsFrom machine (front ++ (before.flatten ++ (after.flatten ++ back))) front.length before.length
      (before.length + after.length) = some late := by
  rw [SlapLoam.paramsFrom, Nat.add_sub_cancel_left, if_neg (by omega)]
  exact first.mapM row front back

end Scanning

section Building

variable {machine : Machine}

theorem varArraySize_eq {params : List SlapVariable} (fits : ∀ param ∈ params, param.Fits machine) {size : Nat}
    (small : size + (params.flatMap (·.encode machine)).length < 2 ^ 32) :
    params.foldl (fun size param => ulong machine (size + getVarSize machine param)) size =
      size + (params.flatMap (·.encode machine)).length := by
  induction params generalizing size with
  | nil => simp
  | cons param rest ih =>
    simp only [List.forall_mem_cons] at fits
    simp only [List.flatMap_cons, List.length_append] at small ⊢
    rw [List.foldl_cons, getVarSize_eq fits.1, ulong_small (by omega), ih fits.2 (by omega), Nat.add_assoc]

theorem convParams_spec {params : List SlapVariable} (fits : ∀ param ∈ params, param.Fits machine) (front : List UInt8)
    {room : List UInt8} (enough : (params.flatMap (·.encode machine)).length ≤ room.length) {first : Nat}
    {pImcpSlapVar : Option Nat}
    (place : nextVar machine (front ++ room) first pImcpSlapVar = some front.length) :
    convParams machine first pImcpSlapVar params (front ++ room) =
      some (front ++ (params.flatMap (·.encode machine) ++
        room.drop (params.flatMap (·.encode machine)).length)) := by
  induction params generalizing front room pImcpSlapVar with
  | nil => simp [convParams]
  | cons param rest ih =>
    simp only [List.forall_mem_cons] at fits
    simp only [List.flatMap_cons, List.length_append] at enough ⊢
    have small : (param.variant.octets machine).length < 2 ^ 32 := by
      have := fits.1.size
      omega
    have written := convToImcpVar_spec front small (show (param.encode machine).length ≤ room.length by omega)
    have size := (encode_sent fits.1).size front (room.drop (param.encode machine).length)
    have next : nextVar machine (front ++ (param.encode machine ++ room.drop (param.encode machine).length)) first
        (some front.length) = some (front ++ param.encode machine).length := by
      simp only [nextVar, size, Option.map_eq_map, Option.map_some, List.length_append]
    have left : (rest.flatMap (·.encode machine)).length ≤ (room.drop (param.encode machine).length).length := by
      rw [List.length_drop]
      omega
    rw [← List.append_assoc] at next
    have later := ih fits.2 (front ++ param.encode machine) left next
    simp only [List.append_assoc, List.drop_drop] at later
    simp only [convParams, place, Option.bind_eq_bind, Option.bind_some, written, later, List.append_assoc]

end Building

end CcspCommon.SlapLoam
