import CcspCommon.AnscPlatform.AnscString
import CcspCommon.HttpMboChunked.ChunkLine

set_option autoImplicit false

namespace CcspCommon.HttpMboChunked

section Output

def upperHexDigit (digit : Nat) : UInt8 := UInt8.ofNat (if digit < 10 then digit + 0x30 else digit - 10 + 0x41)

def hexText (number : Nat) : List UInt8 :=
  if number = 0 then [0x30] else (Nat.digits 16 number).reverse.map upperHexDigit

def chunkMsg (ulBodySize : Nat) : List UInt8 := hexText (ulBodySize % 2 ^ 32) ++ [0x20, 0x20, 0x20] ++ crlf

def outputBody (bChunkedMode : Bool) (ulBodySize : Nat) (output : List (List UInt8)) : List (List UInt8) :=
  (if bChunkedMode && ulBodySize ≠ 0 then [chunkMsg ulBodySize] else []) ++ output ++
    if bChunkedMode && ulBodySize ≠ 0 then [crlf] else []

end Output

section Reading

def UpperCase (digit : UInt8) : Prop := 0x41 ≤ digit ∧ digit ≤ 0x46

instance : DecidablePred UpperCase := fun _ => inferInstanceAs (Decidable (_ ∧ _))

-- Every digit in upper case is read as 32 less than it is, at its place.
def upperWeight : List UInt8 → Nat
  | [] => 0
  | digit :: rest => (if UpperCase digit then 16 ^ rest.length else 0) + upperWeight rest

theorem upperWeight_append (front back : List UInt8) :
    upperWeight (front ++ back) = upperWeight front * 16 ^ back.length + upperWeight back := by
  induction front with
  | nil => simp [upperWeight]
  | cons digit rest ih =>
    rw [List.cons_append, upperWeight, upperWeight, ih, List.length_append, Nat.pow_add]
    split_ifs <;> ring

theorem upperWeight_lt (digits : List UInt8) : 15 * upperWeight digits < 16 ^ digits.length := by
  induction digits with
  | nil => decide
  | cons digit rest ih =>
    rw [upperWeight, List.length_cons, Nat.pow_succ]
    split_ifs <;> omega

theorem upperWeight_eq_zero (digits : List UInt8) : upperWeight digits = 0 ↔ ∀ digit ∈ digits, ¬ UpperCase digit := by
  induction digits with
  | nil => simp [upperWeight]
  | cons digit rest ih =>
    rw [upperWeight, Nat.add_eq_zero_iff, ih, List.forall_mem_cons]
    by_cases upper : UpperCase digit <;> simp [upper]

theorem dvd_upperWeight (digits : List UInt8) (n : Nat) :
    16 ^ (n + 1) ∣ 32 * upperWeight digits ↔ ∀ digit ∈ digits.drop (digits.length - n), ¬ UpperCase digit := by
  have split := upperWeight_append (digits.take (digits.length - n)) (digits.drop (digits.length - n))
  have below := upperWeight_lt (digits.drop (digits.length - n))
  have length : (digits.drop (digits.length - n)).length = min digits.length n := by
    rw [List.length_drop]
    omega
  rw [List.take_append_drop] at split
  rw [← upperWeight_eq_zero, split, Nat.mul_add, length]
  rw [length] at below
  generalize upperWeight (digits.drop (digits.length - n)) = back at below ⊢
  have front : 16 ^ (n + 1) ∣ 32 * (upperWeight (digits.take (digits.length - n)) * 16 ^ min digits.length n) := by
    by_cases short : digits.length ≤ n
    · rw [Nat.sub_eq_zero_of_le short, List.take_zero, upperWeight, Nat.zero_mul, Nat.mul_zero]
      exact Nat.dvd_zero _
    · rw [Nat.min_eq_right (Nat.le_of_not_le short)]
      exact ⟨2 * upperWeight (digits.take (digits.length - n)), by ring⟩
  have smaller : 16 ^ min digits.length n ≤ 16 ^ n := Nat.pow_le_pow_right (by decide) (Nat.min_le_right _ _)
  rw [Nat.dvd_add_right front]
  constructor
  · intro divides
    have zero := Nat.eq_zero_of_dvd_of_lt divides (by rw [Nat.pow_succ]; omega)
    omega
  · rintro rfl
    exact Nat.dvd_zero _

theorem hexValue_upper (w : Nat) {digit : UInt8} (upper : UpperCase digit) :
    ∃ value number, hexValue w digit = some value ∧ hexDigit digit = some number ∧
      (value + 32) % 2 ^ w = number % 2 ^ w := by
  have low : 0x41 ≤ digit.toNat := UInt8.le_iff_toNat_le.mp upper.1
  have high : digit.toNat ≤ 0x46 := UInt8.le_iff_toNat_le.mp upper.2
  have notNumber : ¬ (0x30 ≤ digit ∧ digit ≤ 0x39) := by
    rw [UInt8.le_iff_toNat_le, UInt8.le_iff_toNat_le]
    change ¬ (0x30 ≤ digit.toNat ∧ digit.toNat ≤ 0x39)
    omega
  have notLower : ¬ (0x61 ≤ digit ∧ digit ≤ 0x66) := by
    rw [UInt8.le_iff_toNat_le, UInt8.le_iff_toNat_le]
    change ¬ (0x61 ≤ digit.toNat ∧ digit.toNat ≤ 0x66)
    omega
  refine ⟨(((digit.toNat : Int) - 0x61 + 10) % 2 ^ w).toNat, digit.toNat - 0x37, ?_, ?_, ?_⟩
  · rw [hexValue, if_neg notNumber, if_pos (.inr upper)]
  · rw [hexDigit, if_neg notNumber, if_neg notLower]
    exact if_pos upper
  · have nonneg : 0 ≤ ((digit.toNat : Int) - 0x61 + 10) % 2 ^ w := Int.emod_nonneg _ (by positivity)
    apply Int.ofNat_inj.mp
    push_cast
    rw [Int.toNat_of_nonneg nonneg, Int.emod_add_emod]
    congr 1
    omega

theorem hexValue_step {w : Nat} (wide : 4 ≤ w) {digit : UInt8} (hex : (hexDigit digit).isSome) :
    ∃ value, hexValue w digit = some value ∧
      (value + if UpperCase digit then 32 else 0) % 2 ^ w = (hexDigit digit).getD 0 % 2 ^ w := by
  by_cases upper : UpperCase digit
  · obtain ⟨value, number, read, known, same⟩ := hexValue_upper w upper
    exact ⟨value, read, by rw [if_pos upper, known, same, Option.getD_some]⟩
  · obtain ⟨number, known⟩ := Option.isSome_iff_exists.mp hex
    exact ⟨number, (hexValue_eq wide upper).trans known, by rw [if_neg upper, known, Option.getD_some, Nat.add_zero]⟩

theorem digit_modEq {m read lost number value missing digit : Nat} (same : read + lost ≡ number [MOD m])
    (step : value + missing ≡ digit [MOD m]) :
    (read * 16 + value) % m + (lost * 16 + missing) ≡ number * 16 + digit [MOD m] :=
  calc (read * 16 + value) % m + (lost * 16 + missing)
    _ ≡ read * 16 + value + (lost * 16 + missing) [MOD m] := (Nat.mod_modEq _ _).add_right _
    _ = (read + lost) * 16 + (value + missing) := by ring
    _ ≡ number * 16 + digit [MOD m] := (same.mul_right 16).add step

theorem readChunkSize_upper {w : Nat} (wide : 4 ≤ w) {digits : List UInt8}
    (hex : ∀ digit ∈ digits, (hexDigit digit).isSome)
    {behind : List UInt8} (ended : ∀ first, behind.head? = some first → hexDigit first = none) (read number : Nat) :
    ∀ lost, (read + lost) % 2 ^ w = number % 2 ^ w →
    (readChunkSize w read (digits ++ behind) + (lost * 16 ^ digits.length + 32 * upperWeight digits)) % 2 ^ w =
      digits.foldl (fun number uc => number * 16 + (hexDigit uc).getD 0) number % 2 ^ w := by
  induction digits generalizing read number with
  | nil =>
    intro lost same
    have stops : readChunkSize w read behind = read := by
      cases behind with
      | nil => rfl
      | cons first rest => simp only [readChunkSize, hexValue_none (ended first rfl)]
    simpa [upperWeight, stops] using same
  | cons digit rest ih =>
    intro lost same
    obtain ⟨value, known, step⟩ := hexValue_step wide (hex digit List.mem_cons_self)
    have later := ih (fun other member => hex other (List.mem_cons_of_mem _ member))
      ((read * 16 + value) % 2 ^ w) (number * 16 + (hexDigit digit).getD 0)
      (lost * 16 + if UpperCase digit then 32 else 0) (digit_modEq same step)
    simp only [List.cons_append, readChunkSize, known, List.foldl_cons]
    rw [← later]
    congr 2
    rw [upperWeight, List.length_cons]
    split_ifs <;> ring

theorem readChunkSize_lt {w read : Nat} (small : read < 2 ^ w) (text : List UInt8) :
    readChunkSize w read text < 2 ^ w := by
  induction text generalizing read with
  | nil => exact small
  | cons first rest ih =>
    rw [readChunkSize]
    split
    · exact ih (Nat.mod_lt _ (by positivity))
    · exact small

theorem readChunkSize_iff (n : Nat) {digits behind : List UInt8} (hex : ∀ digit ∈ digits, (hexDigit digit).isSome)
    (ended : ∀ first, behind.head? = some first → hexDigit first = none) :
    readChunkSize (4 * (n + 1)) 0 (digits ++ behind) = hexNumber digits ↔
      hexNumber digits < 2 ^ (4 * (n + 1)) ∧ ∀ digit ∈ digits.drop (digits.length - n), ¬ UpperCase digit := by
  have read := readChunkSize_upper (w := 4 * (n + 1)) (by omega) hex ended 0 0 0 rfl
  have below := readChunkSize_lt (show 0 < 2 ^ (4 * (n + 1)) by positivity) (digits ++ behind)
  have sixteen : 2 ^ (4 * (n + 1)) = 16 ^ (n + 1) := by rw [Nat.pow_mul]
  rw [Nat.zero_mul, Nat.zero_add] at read
  change (_ + 32 * upperWeight digits) % 2 ^ (4 * (n + 1)) = hexNumber digits % 2 ^ (4 * (n + 1)) at read
  rw [← dvd_upperWeight, ← sixteen]
  generalize readChunkSize (4 * (n + 1)) 0 (digits ++ behind) = chunkSize at read below ⊢
  constructor
  · intro same
    rw [same] at read below
    have lost : 32 * upperWeight digits ≡ 0 [MOD 2 ^ (4 * (n + 1))] := Nat.ModEq.add_left_cancel' _ read
    exact ⟨below, Nat.modEq_zero_iff_dvd.mp lost⟩
  · rintro ⟨fits, weight, lost⟩
    rw [lost, Nat.add_mul_mod_self_left, Nat.mod_eq_of_lt below, Nat.mod_eq_of_lt fits] at read
    exact read

end Reading

section Written

theorem upperHexDigit_table : ∀ digit : Fin 16, hexDigit (upperHexDigit digit) = some digit.val ∧
    (UpperCase (upperHexDigit digit) ↔ 10 ≤ digit.val) := by decide

theorem hexDigit_upperHexDigit {digit : Nat} (small : digit < 16) : hexDigit (upperHexDigit digit) = some digit :=
  (upperHexDigit_table ⟨digit, small⟩).1

theorem upperCase_upperHexDigit {digit : Nat} (small : digit < 16) : UpperCase (upperHexDigit digit) ↔ 10 ≤ digit :=
  (upperHexDigit_table ⟨digit, small⟩).2

theorem hexNumber_digits {digits : List Nat} (small : ∀ digit ∈ digits, digit < 16) :
    hexNumber (digits.reverse.map upperHexDigit) = Nat.ofDigits 16 digits := by
  induction digits with
  | nil => rfl
  | cons digit rest ih =>
    obtain ⟨first, later⟩ := List.forall_mem_cons.mp small
    have number := ih later
    rw [hexNumber] at number ⊢
    rw [List.reverse_cons, List.map_append, List.foldl_append, number, Nat.ofDigits_cons]
    simp only [List.map_cons, List.map_nil, List.foldl_cons, List.foldl_nil, hexDigit_upperHexDigit first,
      Option.getD_some]
    omega

def writtenLine (number : Nat) (positive : number ≠ 0) : ChunkLine where
  digits := hexText number
  extension := [0x20, 0x20, 0x20]
  nonempty := by
    rw [hexText, if_neg positive, Ne, List.map_eq_nil_iff, List.reverse_eq_nil_iff]
    exact Nat.digits_ne_nil_iff_ne_zero.mpr positive
  hex := by
    intro digit member
    rw [hexText, if_neg positive] at member
    obtain ⟨value, inside, rfl⟩ := List.mem_map.mp member
    rw [hexDigit_upperHexDigit (Nat.digits_lt_base (by decide) (List.mem_reverse.mp inside))]
    rfl
  ended := by
    rintro first same
    cases same
    decide
  plain := by decide

theorem size_writtenLine {number : Nat} (positive : number ≠ 0) : (writtenLine number positive).size = number := by
  have text : (writtenLine number positive).digits = (Nat.digits 16 number).reverse.map upperHexDigit := if_neg positive
  rw [ChunkLine.size, text, hexNumber_digits fun digit => Nat.digits_lt_base (by decide), Nat.ofDigits_digits]

theorem bytes_writtenLine {number : Nat} (positive : number ≠ 0) (small : number < 2 ^ 32) :
    (writtenLine number positive).bytes = chunkMsg number := by
  rw [chunkMsg, Nat.mod_eq_of_lt small]
  rfl

theorem lowerCase_writtenLine {number : Nat} (positive : number ≠ 0) (n : Nat) :
    (∀ digit ∈ (writtenLine number positive).digits.drop ((writtenLine number positive).digits.length - n),
      ¬ UpperCase digit) ↔ ∀ digit ∈ (Nat.digits 16 number).take n, digit < 10 := by
  have text : (writtenLine number positive).digits = (Nat.digits 16 number).reverse.map upperHexDigit := if_neg positive
  rw [text, List.length_map, List.length_reverse, ← List.map_drop, List.drop_reverse]
  have last : (Nat.digits 16 number).take ((Nat.digits 16 number).length - ((Nat.digits 16 number).length - n)) =
      (Nat.digits 16 number).take n := by
    rw [List.take_eq_take_iff]
    omega
  rw [last, List.forall_mem_map]
  refine forall_congr' fun digit => ?_
  rw [List.mem_reverse]
  refine imp_congr_right fun member => ?_
  rw [upperCase_upperHexDigit (Nat.digits_lt_base (by decide) (List.mem_of_mem_take member)), Nat.not_le]

end Written

section Lines

open CcspCommon.AnscPlatform (UlongSize)

theorem parseExtensions_few {left : Nat} {pExt : List UInt8} (few : pExt.count semicolon < left)
    (shape : ∃ rest, pExt = semicolon :: rest) : parseExtensions left (some pExt) = none := by
  induction left generalizing pExt with
  | zero => cases few
  | succ left ih =>
    obtain ⟨rest, rfl⟩ := shape
    rw [parseExtensions_succ, List.drop_succ_cons, List.drop_zero]
    rw [List.count_cons_self, Nat.add_lt_add_iff_right, ← count_linearWhiteSpace] at few
    cases found : memchr semicolon (linearWhiteSpace rest) with
    | some next =>
      obtain ⟨later, same, count⟩ := memchr_some found
      rw [ih (by rw [count]; exact few) ⟨later, same⟩, Option.map_none]
    | none =>
      cases left with
      | zero => cases few
      | succ left => rfl

theorem ChunkLine.parsed (w : Nat) (line : ChunkLine) :
    (parseChunkedLine w line.bytes).map (Option.map ChunkInfo.chunkSize) =
      if line.extension.count semicolon = 0 ∨ httpMaxChunkExtNumber ≤ line.extension.count semicolon then
        some (some (readChunkSize w 0 line.text))
      else none := by
  have ending : findCrLf line.bytes = some line.text.length := by
    simpa [ChunkLine.bytes] using findCrLf_line line.plain_text []
  have text : line.bytes.take line.text.length = line.text := by simp [ChunkLine.bytes]
  have count : line.text.count semicolon = line.extension.count semicolon := by
    rw [ChunkLine.text, List.count_append, count_digits line.hex, Nat.zero_add]
  unfold HttpMboChunked.parseChunkedLine
  simp only [ending, text, ← count]
  cases found : memchr semicolon line.text with
  | none =>
    rw [if_pos (.inl (memchr_eq_none.mp found))]
    rfl
  | some pExt =>
    obtain ⟨rest, shape, same⟩ := memchr_some found
    have some : line.text.count semicolon ≠ 0 := by
      rw [← same, shape, List.count_cons_self]
      exact Nat.succ_ne_zero _
    simp only [some, false_or]
    rw [← same]
    split_ifs with enough
    · obtain ⟨extArray, parsed, -⟩ := parseExtensions_enough enough ⟨rest, shape⟩
      simp only [parsed, Option.map_some]
    · simp only [parseExtensions_few (Nat.lt_of_not_le enough) ⟨rest, shape⟩, Option.map_none]

def ReadsAs (w : Nat) (line : List UInt8) (size : Nat) : Prop :=
  ∃ info, parseChunkedLine w line = some (some info) ∧ info.chunkSize = size

theorem readsAs_iff_map {w : Nat} {line : List UInt8} {size : Nat} :
    ReadsAs w line size ↔ (parseChunkedLine w line).map (Option.map ChunkInfo.chunkSize) = some (some size) := by
  simp only [ReadsAs, Option.map_eq_some_iff]
  constructor
  · rintro ⟨info, parsed, same⟩
    exact ⟨some info, parsed, info, rfl, same⟩
  · rintro ⟨-, parsed, info, rfl, same⟩
    exact ⟨info, parsed, same⟩

theorem readsAs_iff (n : Nat) (line : ChunkLine) :
    ReadsAs (4 * (n + 1)) line.bytes line.size ↔
      line.size < 2 ^ (4 * (n + 1)) ∧ (∀ digit ∈ line.digits.drop (line.digits.length - n), ¬ UpperCase digit) ∧
        (line.extension.count semicolon = 0 ∨ httpMaxChunkExtNumber ≤ line.extension.count semicolon) := by
  have read := readChunkSize_iff n line.hex line.ended
  have parsed := line.parsed (4 * (n + 1))
  rw [← and_assoc, ChunkLine.size, ← read, readsAs_iff_map, parsed, ChunkLine.text]
  split_ifs with few
  · simp [few]
  · simp [few]

theorem chunk_sizes_read (size : UlongSize) :
    (∀ ulBodySize output, ulBodySize ≠ 0 → ulBodySize < 2 ^ 32 →
      outputBody true ulBodySize output = chunkMsg ulBodySize :: (output ++ [crlf]) ∧
      (ReadsAs size.bits (chunkMsg ulBodySize) ulBodySize ↔
        ∀ digit ∈ (Nat.digits 16 ulBodySize).take (size.bits / 4 - 1), digit < 10)) ∧
    ∀ line : ChunkLine, ReadsAs size.bits line.bytes line.size ↔
      line.size < 2 ^ size.bits ∧
        (∀ digit ∈ line.digits.drop (line.digits.length - (size.bits / 4 - 1)), ¬ UpperCase digit) ∧
        (line.extension.count semicolon = 0 ∨ httpMaxChunkExtNumber ≤ line.extension.count semicolon) := by
  obtain ⟨n, bits, digits⟩ : ∃ n, size.bits = 4 * (n + 1) ∧ size.bits / 4 - 1 = n := by
    cases size
    · exact ⟨7, rfl, rfl⟩
    · exact ⟨15, rfl, rfl⟩
  have large := size.bits_ge
  rw [digits, bits]
  constructor
  · intro ulBodySize output positive small
    have read := readsAs_iff n (writtenLine ulBodySize positive)
    rw [size_writtenLine, bytes_writtenLine positive small, lowerCase_writtenLine] at read
    refine ⟨by simp [outputBody, positive], read.trans ?_⟩
    have fits : ulBodySize < 2 ^ (4 * (n + 1)) := small.trans_le (Nat.pow_le_pow_right (by decide) (bits ▸ large))
    have plain : (writtenLine ulBodySize positive).extension.count semicolon = 0 := rfl
    simp [fits, plain]
  · exact readsAs_iff n

def largeLine : ChunkLine where
  digits := [0x41, 0x30, 0x30, 0x30, 0x30, 0x31, 0x61, 0x66]
  extension := [0x20, 0x20]
  nonempty := by decide
  hex := by decide +kernel
  ended := by
    rintro first same
    cases same
    decide
  plain := by decide

def upperLine : ChunkLine where
  digits := [0x31, 0x41, 0x46]
  extension := [0x20]
  nonempty := by decide
  hex := by decide +kernel
  ended := by
    rintro first same
    cases same
    decide
  plain := by decide

theorem chunk_sizes_read_sample : ReadsAs 32 (chunkMsg 0x1234) 0x1234 ∧ ReadsAs 32 largeLine.bytes 0xA00001AF ∧
    ¬ ReadsAs 32 upperLine.bytes 0x1AF :=
  have lines := (chunk_sizes_read .four).2
  ⟨((chunk_sizes_read .four).1 0x1234 [] (by decide) (by decide)).2.mpr (by simp [UlongSize.bits]),
    (lines largeLine).mpr ⟨by decide, by decide +kernel, .inl rfl⟩,
    fun read => (((lines upperLine).mp read).2.1 0x41 (by decide)) (by decide)⟩

/-- A chunk of ten bytes is announced as `A` and read as one of 4294967274. -/
theorem upper_case_misread : ¬ ReadsAs 32 (chunkMsg 10) 10 := by
  rintro ⟨info, parsed, size⟩
  have line : parseChunkedLine 32 (chunkMsg 10) = some (some ⟨4294967274, 0, []⟩) := by decide +kernel
  rw [line] at parsed
  cases parsed
  cases size

end Lines

end CcspCommon.HttpMboChunked
