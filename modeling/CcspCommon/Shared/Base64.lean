import Mathlib.Data.Nat.Basic

set_option autoImplicit false

namespace CcspCommon.Shared.Base64

section Alphabet

def symbol (value : Nat) : Char :=
  if value < 26 then Char.ofNat (value + 65)
  else if value < 52 then Char.ofNat (value - 26 + 97)
  else if value < 62 then Char.ofNat (value - 52 + 48)
  else if value = 62 then '+'
  else '/'

def value (c : Char) : Option Nat :=
  if 'A' ≤ c ∧ c ≤ 'Z' then some (c.toNat - 65)
  else if 'a' ≤ c ∧ c ≤ 'z' then some (c.toNat - 97 + 26)
  else if '0' ≤ c ∧ c ≤ '9' then some (c.toNat - 48 + 52)
  else if c = '+' then some 62
  else if c = '/' then some 63
  else none

theorem value_symbol_table : ∀ digit : Fin 64, value (symbol digit) = some digit.val := by decide

theorem value_symbol {digit : Nat} (small : digit < 64) : value (symbol digit) = some digit :=
  value_symbol_table ⟨digit, small⟩

theorem symbol_table_ne_pad : ∀ digit : Fin 64, symbol digit ≠ '=' := by decide

theorem symbol_ne_pad {digit : Nat} (small : digit < 64) : symbol digit ≠ '=' := symbol_table_ne_pad ⟨digit, small⟩

end Alphabet

section Codec

def encode : List UInt8 → List Char
  | [] => []
  | [a] =>
    let bits := a.toNat * 65536
    [symbol (bits / 262144), symbol (bits / 4096 % 64), '=', '=']
  | [a, b] =>
    let bits := a.toNat * 65536 + b.toNat * 256
    [symbol (bits / 262144), symbol (bits / 4096 % 64), symbol (bits / 64 % 64), '=']
  | a :: b :: c :: rest =>
    let bits := a.toNat * 65536 + b.toNat * 256 + c.toNat
    [symbol (bits / 262144), symbol (bits / 4096 % 64), symbol (bits / 64 % 64), symbol (bits % 64)] ++ encode rest

def decode : List Char → Option (List UInt8)
  | [] => some []
  | [w, x, '=', '='] => do
    let w ← value w
    let x ← value x
    if x % 16 = 0 then some [UInt8.ofNat ((w * 64 + x) / 16)] else none
  | [w, x, y, '='] => do
    let w ← value w
    let x ← value x
    let y ← value y
    let bits := (w * 64 + x) * 64 + y
    if y % 4 = 0 then some [UInt8.ofNat (bits / 1024), UInt8.ofNat (bits / 4 % 256)] else none
  | w :: x :: y :: z :: rest => do
    let w ← value w
    let x ← value x
    let y ← value y
    let z ← value z
    let bits := ((w * 64 + x) * 64 + y) * 64 + z
    let octets ← decode rest
    some (UInt8.ofNat (bits / 65536) :: UInt8.ofNat (bits / 256 % 256) :: UInt8.ofNat (bits % 256) :: octets)
  | _ => none

theorem ofNat_of_eq (octet : UInt8) {value : Nat} (same : value = octet.toNat) : UInt8.ofNat value = octet := by
  rw [same, UInt8.ofNat_toNat]

theorem decode_one (a : UInt8) {bits : Nat} (group : bits = a.toNat * 65536) :
    decode [symbol (bits / 262144), symbol (bits / 4096 % 64), '=', '='] = some [a] := by
  have small := a.toNat_lt
  have first : bits / 262144 < 64 := by omega
  have second : bits / 4096 % 64 < 64 := by omega
  rw [decode, value_symbol first, value_symbol second]
  simp only [Option.bind_eq_bind, Option.bind_some]
  rw [if_pos (by omega), ofNat_of_eq a (by omega)]

theorem decode_two (a b : UInt8) {bits : Nat} (group : bits = a.toNat * 65536 + b.toNat * 256) :
    decode [symbol (bits / 262144), symbol (bits / 4096 % 64), symbol (bits / 64 % 64), '='] = some [a, b] := by
  have small := a.toNat_lt
  have low := b.toNat_lt
  have first : bits / 262144 < 64 := by omega
  have second : bits / 4096 % 64 < 64 := by omega
  have third : bits / 64 % 64 < 64 := by omega
  rw [decode, value_symbol first, value_symbol second, value_symbol third]
  · simp only [Option.bind_eq_bind, Option.bind_some]
    rw [if_pos (by omega), ofNat_of_eq a (by omega), ofNat_of_eq b (by omega)]
  · exact symbol_ne_pad third

theorem decode_encode (octets : List UInt8) : decode (encode octets) = some octets := by
  fun_induction encode octets with
  | case1 => rfl
  | case2 a bits => exact decode_one a rfl
  | case3 a b bits => exact decode_two a b rfl
  | case4 a b c rest bits ih =>
    have small := a.toNat_lt
    have middle := b.toNat_lt
    have low := c.toNat_lt
    have first : bits / 262144 < 64 := by omega
    have second : bits / 4096 % 64 < 64 := by omega
    have third : bits / 64 % 64 < 64 := by omega
    have fourth : bits % 64 < 64 := by omega
    simp only [List.cons_append, List.nil_append]
    rw [decode, value_symbol first, value_symbol second, value_symbol third, value_symbol fourth, ih]
    · simp only [Option.bind_eq_bind, Option.bind_some]
      rw [ofNat_of_eq a (by omega), ofNat_of_eq b (by omega), ofNat_of_eq c (by omega)]
    · exact fun _ padded _ => symbol_ne_pad fourth padded
    · exact fun padded _ => symbol_ne_pad fourth padded

end Codec

end CcspCommon.Shared.Base64
