import CcspCommon.AnscAsn1.TaggedOctets
import Mathlib.Data.Nat.Digits.Defs

set_option autoImplicit false

namespace CcspCommon.AnscPlatform

open CcspCommon.AnscAsn1 (ulongOctets ulongSize ulongSize_cases swapUlong swapUlong_digits memoryOfUlong networkMemory)

section Words

variable (machine : Machine)

def ofBigEndian (octets : List UInt8) : Nat := Nat.ofDigits 256 (octets.reverse.map UInt8.toNat)

def readUlong (memory : List UInt8) : Nat :=
  let octets := memory.take (ulongSize machine)
  ofBigEndian (if machine.littleEndian then octets.reverse else octets)

def ulongFromNToH (memory : List UInt8) : Nat :=
  let value := readUlong machine memory
  if machine.littleEndian then swapUlong value else value

def swapUshort (usValue : Nat) : Nat := usValue / 0x100 % 0x100 + usValue % 0x100 * 0x100

def memoryOfUshort (value : Nat) : List UInt8 :=
  if machine.littleEndian then (ulongOctets 2 value).reverse else ulongOctets 2 value

def networkUshort (value : Nat) : List UInt8 :=
  memoryOfUshort machine (if machine.littleEndian then swapUshort value else value)

def ushortFromNToH (memory : List UInt8) : Nat :=
  let octets := memory.take 2
  let value := ofBigEndian (if machine.littleEndian then octets.reverse else octets)
  if machine.littleEndian then swapUshort value else value

end Words

section Values

variable {machine : Machine} {value : Nat}

@[simp] theorem length_ulongOctets (width value : Nat) : (ulongOctets width value).length = width := by
  simp [ulongOctets]

theorem ulongOctets_succ (width value : Nat) :
    ulongOctets (width + 1) value = ulongOctets width (value / 256) ++ [UInt8.ofNat value] := by
  simp only [ulongOctets, List.range_succ, List.map_append, List.map_cons, List.map_nil]
  congr 1
  · refine List.map_congr_left fun index member => ?_
    have place : width + 1 - 1 - index = width - 1 - index + 1 := by
      have := List.mem_range.mp member
      omega
    rw [place, Nat.pow_succ', Nat.div_div_eq_div_mul]
  · simp

theorem ofBigEndian_octets (width value : Nat) : ofBigEndian (ulongOctets width value) = value % 256 ^ width := by
  induction width generalizing value with
  | zero => simp [ofBigEndian, ulongOctets, Nat.mod_one]
  | succ width ih =>
    have later := ih (value / 256)
    simp only [ofBigEndian] at later ⊢
    simp only [ulongOctets_succ, List.reverse_append, List.reverse_cons, List.reverse_nil, List.nil_append,
      List.cons_append, List.map_cons, Nat.ofDigits_cons, later, UInt8.toNat_ofNat']
    simpa [Nat.pow_succ'] using (Nat.mod_mul (x := value) (a := 256) (b := 256 ^ width)).symm

theorem swapUlong_swapUlong (small : value < 2 ^ 32) : swapUlong (swapUlong value) = value := by
  obtain ⟨zero, one, two, three⟩ := swapUlong_digits value
  have digits : swapUlong (swapUlong value) =
      value / 0x1000000 % 0x100 * 0x1000000 + value / 0x10000 % 0x100 * 0x10000 + value / 0x100 % 0x100 * 0x100 +
        value % 0x100 := by
    rw [swapUlong, zero, one, two, three]
  omega

theorem swapUshort_swapUshort (small : value < 2 ^ 16) : swapUshort (swapUshort value) = value := by
  have swap (high low : Nat) (highSmall : high < 0x100) (lowSmall : low < 0x100) :
      (high + low * 0x100) / 0x100 % 0x100 + (high + low * 0x100) % 0x100 * 0x100 = low + high * 0x100 := by
    omega
  have high : value / 0x100 % 0x100 = value / 0x100 := Nat.mod_eq_of_lt (by omega)
  simp only [swapUshort, high]
  rw [swap (value / 0x100) (value % 0x100) (by omega) (by omega)]
  omega

@[simp] theorem length_memoryOfUlong (machine : Machine) (value : Nat) :
    (memoryOfUlong machine value).length = ulongSize machine := by
  simp [memoryOfUlong, apply_ite]

@[simp] theorem length_networkMemory (machine : Machine) (value : Nat) :
    (networkMemory machine value).length = ulongSize machine := by
  simp [networkMemory]

@[simp] theorem length_networkUshort (machine : Machine) (value : Nat) : (networkUshort machine value).length = 2 := by
  simp only [networkUshort, memoryOfUshort]
  split <;> simp

theorem ulongSize_pos (machine : Machine) : 0 < ulongSize machine := by
  obtain ⟨-, size⟩ | ⟨-, size⟩ := ulongSize_cases machine <;> omega

theorem bound_ulong (small : value < 2 ^ 32) : value < 256 ^ ulongSize machine := by
  obtain ⟨-, size⟩ | ⟨-, size⟩ := ulongSize_cases machine <;> simp only [size] <;> omega

theorem readUlong_memory (bound : value < 256 ^ ulongSize machine) (behind : List UInt8) :
    readUlong machine (memoryOfUlong machine value ++ behind) = value := by
  have front : (memoryOfUlong machine value ++ behind).take (ulongSize machine) = memoryOfUlong machine value := by
    simp
  simp only [readUlong, front]
  cases endian : machine.littleEndian <;>
    simp [memoryOfUlong, endian, ofBigEndian_octets, Nat.mod_eq_of_lt bound]

theorem ulongFromNToH_network (small : value < 2 ^ 32) (behind : List UInt8) :
    ulongFromNToH machine (networkMemory machine value ++ behind) = value := by
  have swapped : swapUlong value < 2 ^ 32 := CcspCommon.AnscAsn1.swapUlong_lt value
  cases endian : machine.littleEndian <;>
    simp [ulongFromNToH, networkMemory, endian, readUlong_memory (bound_ulong small),
      readUlong_memory (bound_ulong swapped), swapUlong_swapUlong small]

theorem ushortFromNToH_network (small : value < 2 ^ 16) (behind : List UInt8) :
    ushortFromNToH machine (networkUshort machine value ++ behind) = value := by
  have swapped : swapUshort value < 2 ^ 16 := by
    simp only [swapUshort]
    omega
  have front : (networkUshort machine value ++ behind).take 2 = networkUshort machine value := by
    simp
  have octets {word : Nat} (bound : word < 2 ^ 16) : ofBigEndian (ulongOctets 2 word) = word := by
    rw [ofBigEndian_octets, Nat.mod_eq_of_lt (by omega)]
  simp only [ushortFromNToH, front]
  cases endian : machine.littleEndian <;>
    simp [networkUshort, memoryOfUshort, endian, octets small, octets swapped, swapUshort_swapUshort small]

theorem ulongFromNToH_front {front : List UInt8} (enough : ulongSize machine ≤ front.length) (behind : List UInt8) :
    ulongFromNToH machine (front ++ behind) = ulongFromNToH machine front := by
  simp only [ulongFromNToH, readUlong, List.take_append_of_le_length enough]

end Values

end CcspCommon.AnscPlatform
