import Mathlib

set_option autoImplicit false

namespace CcspCommon.HttpMboChunked

section Scanning

abbrev carriageReturn : UInt8 := 0x0D

abbrev lineFeed : UInt8 := 0x0A

abbrev crlf : List UInt8 := [carriageReturn, lineFeed]

def findCrLf : List UInt8 → Option Nat
  | first :: second :: rest =>
    if first = carriageReturn ∧ second = lineFeed then some 0 else (findCrLf (second :: rest)).map (· + 1)
  | _ => none

def findChunkData (buffer : List UInt8) : Option Nat := (findCrLf buffer).map (· + 2)

def findBodyStart : Nat → List UInt8 → Option (List UInt8)
  | 2, rest => some rest
  | _, [] => none
  | eolCount, first :: rest =>
    if first = carriageReturn then
      match rest with
      | [] => findBodyStart (eolCount + 1) []
      | second :: later =>
        if second = lineFeed then findBodyStart (eolCount + 1) later else findBodyStart (eolCount + 1) (second :: later)
    else if first = lineFeed then findBodyStart (eolCount + 1) rest
    else findBodyStart 0 rest

def isTrailerComplete (buffer : List UInt8) : Bool :=
  if buffer.length < 2 then false
  else if buffer.take 2 = crlf then true
  else (findBodyStart 0 buffer).isSome

def getTrailerSize (buffer : List UInt8) : Nat :=
  if buffer.length < 2 then buffer.length
  else if buffer.take 2 = crlf then 2
  else match findBodyStart 0 buffer with
    | some body => buffer.length - body.length
    | none => buffer.length

end Scanning

section Parsing

def semicolon : UInt8 := 0x3B

def equal : UInt8 := 0x3D

def httpMaxChunkTokenSize : Nat := 64

/-- Of `ExtArray` the entries that are set, each up to its terminator. -/
structure ChunkInfo where
  chunkSize : Nat
  extCount : Nat
  extArray : List (List UInt8)
  deriving DecidableEq, Repr

-- The value of a hex digit in a `ULONG` of `w` bits; `uc - 'a' + 10` is meant for lower case only.
def hexValue (w : Nat) (uc : UInt8) : Option Nat :=
  if 0x30 ≤ uc ∧ uc ≤ 0x39 then some (uc.toNat - 0x30)
  else if (0x61 ≤ uc ∧ uc ≤ 0x66) ∨ (0x41 ≤ uc ∧ uc ≤ 0x46) then some (((uc.toNat : Int) - 0x61 + 10) % 2 ^ w).toNat
  else none

def readChunkSize (w : Nat) : Nat → List UInt8 → Nat
  | ulChunkSize, [] => ulChunkSize
  | ulChunkSize, uc :: rest =>
    match hexValue w uc with
    | some ulValue => readChunkSize w ((ulChunkSize * 16 + ulValue) % 2 ^ w) rest
    | none => ulChunkSize

def memchr (wanted : UInt8) : List UInt8 → Option (List UInt8)
  | [] => none
  | first :: rest => if first = wanted then some (first :: rest) else memchr wanted rest

def linearWhiteSpace (text : List UInt8) : List UInt8 :=
  text.dropWhile fun c => c = 0x20 ∨ c = 0x09 ∨ c = carriageReturn

def httpMaxChunkExtNumber : Nat := 4

def textBefore (wanted : UInt8) (text : List UInt8) : List UInt8 :=
  match memchr wanted text with
  | some found => text.take (text.length - found.length)
  | none => text

def extToken (pExt : List UInt8) : List UInt8 :=
  let ulExtTokenSize := (textBefore equal (textBefore semicolon pExt)).length
  pExt.take (if ulExtTokenSize ≥ httpMaxChunkTokenSize then httpMaxChunkTokenSize - 1 else ulExtTokenSize)

/-- The loop over the extensions, with how many more there may be. Behind the last one `pExt` is NULL,
which is less than `pCRLF`, so that the loop goes on and reads from it. -/
def parseExtensions : Nat → Option (List UInt8) → Option (List (List UInt8))
  | 0, _ => some []
  | _ + 1, none => none
  | left + 1, some pExt => do
    let pExt := linearWhiteSpace (pExt.drop 1)
    let others ← parseExtensions left (memchr semicolon pExt)
    return extToken pExt :: others

-- `HttpSmpoUtilParseChunkedLine`, which `AnscHttpParseChunkedLine` repeats. There is no result where
-- NULL is dereferenced; `some none` stands for a NULL.
def parseChunkedLine (w : Nat) (buffer : List UInt8) : Option (Option ChunkInfo) :=
  match findCrLf buffer with
  | none => some none
  | some pCRLF =>
    let ulChunkSize := readChunkSize w 0 (buffer.take pCRLF)
    match memchr semicolon (buffer.take pCRLF) with
    | none => some (some ⟨ulChunkSize, 0, []⟩)
    | some pExt =>
      (parseExtensions httpMaxChunkExtNumber (some pExt)).map fun extArray =>
        some ⟨ulChunkSize, extArray.length, extArray⟩

theorem parseExtensions_succ (left : Nat) (pExt : List UInt8) :
    parseExtensions (left + 1) (some pExt) =
      (parseExtensions left (memchr semicolon (linearWhiteSpace (pExt.drop 1)))).map
        (extToken (linearWhiteSpace (pExt.drop 1)) :: ·) := by
  rw [parseExtensions]
  cases parseExtensions left (memchr semicolon (linearWhiteSpace (pExt.drop 1))) <;> rfl

end Parsing

section ChunkLines

def hexDigit (uc : UInt8) : Option Nat :=
  if 0x30 ≤ uc ∧ uc ≤ 0x39 then some (uc.toNat - 0x30)
  else if 0x61 ≤ uc ∧ uc ≤ 0x66 then some (uc.toNat - 0x57)
  else if 0x41 ≤ uc ∧ uc ≤ 0x46 then some (uc.toNat - 0x37)
  else none

def hexNumber (digits : List UInt8) : Nat :=
  digits.foldl (fun number uc => number * 16 + (hexDigit uc).getD 0) 0

structure ChunkLine where
  digits : List UInt8
  extension : List UInt8
  nonempty : digits ≠ []
  hex : ∀ digit ∈ digits, (hexDigit digit).isSome
  ended : ∀ first, extension.head? = some first → hexDigit first = none
  plain : carriageReturn ∉ extension ∧ lineFeed ∉ extension

def ChunkLine.text (line : ChunkLine) : List UInt8 := line.digits ++ line.extension

def ChunkLine.bytes (line : ChunkLine) : List UInt8 := line.text ++ crlf

def ChunkLine.size (line : ChunkLine) : Nat := hexNumber line.digits

structure ChunkLine.Readable (w : Nat) (line : ChunkLine) : Prop where
  lowerCase : ∀ digit ∈ line.digits, ¬ (0x41 ≤ digit ∧ digit ≤ 0x46)
  fits : line.size + 2 < 2 ^ w
  extensions : line.extension.count semicolon = 0 ∨ httpMaxChunkExtNumber ≤ line.extension.count semicolon
  short : line.bytes.length ≤ 128

theorem findCrLf_line {text : List UInt8} (plain : carriageReturn ∉ text) (rest : List UInt8) :
    findCrLf (text ++ crlf ++ rest) = some text.length := by
  induction text with
  | nil => rfl
  | cons first later ih =>
    obtain ⟨differs, plainLater⟩ := not_or.mp (mt List.mem_cons.mpr plain)
    have step := ih plainLater
    cases later with
    | nil => simp [findCrLf, Ne.symm differs]
    | cons second more =>
      simp only [List.cons_append] at step ⊢
      rw [findCrLf, if_neg (by simp [Ne.symm differs]), step]
      rfl

theorem findCrLf_part {text part : List UInt8} (plain : carriageReturn ∉ text)
    (inside : part <+: text ++ [carriageReturn]) : findCrLf part = none := by
  induction text generalizing part with
  | nil =>
    rcases part with _ | ⟨first, _ | ⟨second, rest⟩⟩
    · rfl
    · rfl
    · simpa using inside.length_le
  | cons first later ih =>
    obtain ⟨differs, plainLater⟩ := not_or.mp (mt List.mem_cons.mpr plain)
    rcases part with _ | ⟨c, rest⟩
    · rfl
    · obtain ⟨rfl, within⟩ := List.cons_prefix_cons.mp inside
      have none := ih plainLater within
      rcases rest with _ | ⟨second, more⟩
      · rfl
      · rw [findCrLf, if_neg (by simp [Ne.symm differs]), none]
        rfl

theorem hexDigit_carriageReturn : hexDigit carriageReturn = none := by decide

theorem ChunkLine.plain_text (line : ChunkLine) : carriageReturn ∉ line.text := by
  intro member
  rcases List.mem_append.mp member with digit | other
  · have hex := line.hex _ digit
    rw [hexDigit_carriageReturn] at hex
    cases hex
  · exact line.plain.1 other

theorem ChunkLine.findChunkData (line : ChunkLine) (rest : List UInt8) :
    findChunkData (line.bytes ++ rest) = some line.bytes.length := by
  rw [HttpMboChunked.findChunkData, ChunkLine.bytes, findCrLf_line line.plain_text]
  simp

theorem ChunkLine.findChunkData_part (line : ChunkLine) {part : List UInt8} (inside : part <+: line.bytes)
    (proper : part ≠ line.bytes) : HttpMboChunked.findChunkData part = none := by
  have before : part <+: line.text ++ [carriageReturn] := by
    have same : line.bytes = (line.text ++ [carriageReturn]) ++ [lineFeed] := by simp [ChunkLine.bytes]
    rw [same] at inside proper
    rcases List.prefix_concat_iff.mp inside with whole | before
    · exact absurd whole proper
    · exact before
  rw [HttpMboChunked.findChunkData, findCrLf_part line.plain_text before]
  rfl

theorem hexValue_eq {w : Nat} (wide : 4 ≤ w) {digit : UInt8} (lowerCase : ¬ (0x41 ≤ digit ∧ digit ≤ 0x46)) :
    hexValue w digit = hexDigit digit := by
  have sixteen : 16 ≤ 2 ^ w := Nat.pow_le_pow_right (by decide : 0 < 2) wide
  unfold hexValue hexDigit
  by_cases number : 0x30 ≤ digit ∧ digit ≤ 0x39
  · rw [if_pos number, if_pos number]
  by_cases lower : 0x61 ≤ digit ∧ digit ≤ 0x66
  · have low : 0x61 ≤ digit.toNat := UInt8.le_iff_toNat_le.mp lower.1
    have high : digit.toNat ≤ 0x66 := UInt8.le_iff_toNat_le.mp lower.2
    have small : ((digit.toNat : Int) - 0x61 + 10) < 2 ^ w := by
      have : (digit.toNat : Int) - 0x61 + 10 < (2 ^ w : Nat) := by omega
      exact_mod_cast this
    rw [if_neg number, if_neg number, if_pos (.inl lower), if_pos lower, Int.emod_eq_of_lt (by omega) small]
    congr 1
    omega
  · rw [if_neg number, if_neg number, if_neg (not_or.mpr ⟨lower, lowerCase⟩), if_neg lower, if_neg lowerCase]

theorem readChunkSize_eq {w : Nat} (wide : 4 ≤ w) {digits : List UInt8}
    (hex : ∀ digit ∈ digits, (hexDigit digit).isSome)
    (lowerCase : ∀ digit ∈ digits, ¬ (0x41 ≤ digit ∧ digit ≤ 0x46)) {behind : List UInt8}
    (ended : ∀ first, behind.head? = some first → hexDigit first = none)
    (lowerBehind : ∀ first, behind.head? = some first → hexValue w first = none) (number : Nat) :
    readChunkSize w (number % 2 ^ w) (digits ++ behind) =
      digits.foldl (fun number uc => number * 16 + (hexDigit uc).getD 0) number % 2 ^ w := by
  induction digits generalizing number with
  | nil =>
    cases behind with
    | nil => rfl
    | cons first rest => simp [readChunkSize, lowerBehind first rfl]
  | cons digit rest ih =>
    obtain ⟨value, known⟩ := Option.isSome_iff_exists.mp (hex digit List.mem_cons_self)
    have read : hexValue w digit = some value := (hexValue_eq wide (lowerCase digit List.mem_cons_self)).trans known
    have later := ih (fun other member => hex other (List.mem_cons_of_mem _ member))
      (fun other member => lowerCase other (List.mem_cons_of_mem _ member)) (number * 16 + value)
    simp only [List.cons_append, readChunkSize, read, List.foldl_cons, known, Option.getD_some]
    rw [← later, Nat.add_mod, Nat.mul_mod, Nat.mod_mod, ← Nat.mul_mod, ← Nat.add_mod]

theorem memchr_eq_none {wanted : UInt8} {text : List UInt8} : memchr wanted text = none ↔ text.count wanted = 0 := by
  induction text with
  | nil => simp [memchr]
  | cons first rest ih =>
    by_cases same : first = wanted
    · simp [memchr, same]
    · simp [memchr, same, ih]

theorem memchr_some {wanted : UInt8} {text found : List UInt8} (known : memchr wanted text = some found) :
    ∃ rest, found = wanted :: rest ∧ found.count wanted = text.count wanted := by
  induction text with
  | nil => cases known
  | cons first rest ih =>
    by_cases same : first = wanted
    · simp only [memchr, if_pos same, Option.some.injEq] at known
      exact ⟨rest, by rw [← known, same], by rw [← known]⟩
    · rw [memchr, if_neg same] at known
      obtain ⟨later, shape, count⟩ := ih known
      exact ⟨later, shape, by rw [count, List.count_cons_of_ne same]⟩

theorem memchr_split {wanted : UInt8} {text found : List UInt8} (known : memchr wanted text = some found) :
    ∃ front rest, text = front ++ wanted :: rest ∧ wanted ∉ front ∧ found = wanted :: rest := by
  induction text with
  | nil => cases known
  | cons first text ih =>
    by_cases same : first = wanted
    next =>
      rw [memchr, if_pos same] at known
      exact ⟨[], text, by rw [same, List.nil_append], List.not_mem_nil, by rw [← Option.some.inj known, same]⟩
    next =>
      rw [memchr, if_neg same] at known
      obtain ⟨front, rest, rfl, free, rfl⟩ := ih known
      refine ⟨first :: front, rest, rfl, ?_, rfl⟩
      rintro (_ | ⟨_, inside⟩)
      · exact same rfl
      · exact free inside

theorem memchr_append {wanted : UInt8} {front : List UInt8} (absent : wanted ∉ front) (back : List UInt8) :
    memchr wanted (front ++ back) = memchr wanted back := by
  induction front with
  | nil => rfl
  | cons first rest ih =>
    obtain ⟨differs, later⟩ := not_or.mp (mt List.mem_cons.mpr absent)
    rw [List.cons_append, memchr, if_neg (Ne.symm differs), ih later]

theorem memchr_here {wanted : UInt8} {front : List UInt8} (free : wanted ∉ front) (rest : List UInt8) :
    memchr wanted (front ++ wanted :: rest) = some (wanted :: rest) := by
  rw [memchr_append free]
  exact if_pos rfl

theorem count_linearWhiteSpace (text : List UInt8) :
    (linearWhiteSpace text).count semicolon = text.count semicolon := by
  induction text with
  | nil => rfl
  | cons first rest ih =>
    unfold linearWhiteSpace
    by_cases blank : first = 0x20 ∨ first = 0x09 ∨ first = carriageReturn
    · rw [List.dropWhile_cons_of_pos (by simpa using blank)]
      have other : first ≠ semicolon := by
        rintro rfl
        revert blank
        decide
      rw [List.count_cons_of_ne other]
      exact ih
    · rw [List.dropWhile_cons_of_neg (by simpa using blank)]

/-- With enough semicolons the loop stops before it comes to the NULL behind the last one. -/
theorem parseExtensions_enough {left : Nat} {pExt : List UInt8} (enough : left ≤ pExt.count semicolon)
    (shape : ∃ rest, pExt = semicolon :: rest) :
    ∃ extArray, parseExtensions left (some pExt) = some extArray ∧ extArray.length = left := by
  induction left generalizing pExt with
  | zero => exact ⟨[], rfl, rfl⟩
  | succ left ih =>
    obtain ⟨rest, rfl⟩ := shape
    rw [parseExtensions_succ, List.drop_succ_cons, List.drop_zero]
    rw [List.count_cons_self, Nat.add_le_add_iff_right, ← count_linearWhiteSpace] at enough
    cases found : memchr semicolon (linearWhiteSpace rest) with
    | some next =>
      obtain ⟨later, same, count⟩ := memchr_some found
      obtain ⟨extArray, parsed, length⟩ := ih (by rw [count]; exact enough) ⟨later, same⟩
      exact ⟨_, by rw [parsed]; rfl, by rw [List.length_cons, length]⟩
    | none =>
      have none := memchr_eq_none.mp found
      obtain rfl : left = 0 := by omega
      exact ⟨_, rfl, rfl⟩

theorem hexDigit_semicolon : hexDigit semicolon = none := by decide

theorem count_digits {digits : List UInt8} (hex : ∀ digit ∈ digits, (hexDigit digit).isSome) :
    digits.count semicolon = 0 := by
  refine List.count_eq_zero.mpr fun member => ?_
  have some := hex _ member
  rw [hexDigit_semicolon] at some
  cases some

theorem hexValue_none {w : Nat} {uc : UInt8} (other : hexDigit uc = none) : hexValue w uc = none := by
  unfold hexDigit at other
  unfold hexValue
  split_ifs at other with number lower upper
  rw [if_neg number, if_neg (not_or.mpr ⟨lower, upper⟩)]

theorem ChunkLine.Readable.parseChunkedLine {w : Nat} (wide : 4 ≤ w) {line : ChunkLine} (readable : line.Readable w) :
    ∃ extArray, parseChunkedLine w line.bytes = some (some ⟨line.size, extArray.length, extArray⟩) := by
  have ending : findCrLf line.bytes = some line.text.length := by
    simpa [ChunkLine.bytes] using findCrLf_line line.plain_text []
  have text : line.bytes.take line.text.length = line.text := by simp [ChunkLine.bytes]
  have size : readChunkSize w 0 line.text = line.size := by
    have read := readChunkSize_eq wide line.hex readable.lowerCase line.ended
      (fun first known => hexValue_none (line.ended first known)) 0
    have small : line.size < 2 ^ w := by have := readable.fits; omega
    rw [Nat.zero_mod] at read
    exact read.trans (Nat.mod_eq_of_lt small)
  have count : line.text.count semicolon = line.extension.count semicolon := by
    rw [ChunkLine.text, List.count_append, count_digits line.hex, Nat.zero_add]
  unfold HttpMboChunked.parseChunkedLine
  simp only [ending, text, size]
  cases found : memchr semicolon line.text with
  | none => exact ⟨[], rfl⟩
  | some pExt =>
    obtain ⟨rest, shape, same⟩ := memchr_some found
    have some : 0 < pExt.count semicolon := by
      rw [shape, List.count_cons_self]
      exact Nat.succ_pos _
    have enough : httpMaxChunkExtNumber ≤ pExt.count semicolon := by
      rcases readable.extensions with none | enough
      · omega
      · omega
    obtain ⟨extArray, parsed, -⟩ := parseExtensions_enough enough ⟨rest, shape⟩
    refine ⟨extArray, ?_⟩
    simp only [parsed, Option.map_some]

end ChunkLines

section Trailers

def PlainLines (lines : List (List UInt8)) : Prop :=
  ∀ line ∈ lines, line ≠ [] ∧ carriageReturn ∉ line ∧ lineFeed ∉ line

def fields (lines : List (List UInt8)) : List UInt8 := lines.flatMap (· ++ crlf) ++ crlf

theorem fields_nil : fields [] = crlf := rfl

theorem fields_cons (line : List UInt8) (rest : List (List UInt8)) :
    fields (line :: rest) = line ++ (carriageReturn :: lineFeed :: fields rest) := by
  simp [fields]

theorem findBodyStart_nil {eolCount : Nat} (few : eolCount < 2) : findBodyStart eolCount [] = none := by
  have cases : eolCount = 0 ∨ eolCount = 1 := by omega
  rcases cases with rfl | rfl <;> rfl

theorem findBodyStart_other {eolCount : Nat} (few : eolCount < 2) {first : UInt8} (rest : List UInt8)
    (notCr : first ≠ carriageReturn) (notLf : first ≠ lineFeed) :
    findBodyStart eolCount (first :: rest) = findBodyStart 0 rest := by
  have cases : eolCount = 0 ∨ eolCount = 1 := by omega
  rcases cases with rfl | rfl <;> cases rest <;> simp [findBodyStart, notCr, notLf]

theorem findBodyStart_crlf {eolCount : Nat} (few : eolCount < 2) (rest : List UInt8) :
    findBodyStart eolCount (carriageReturn :: lineFeed :: rest) = findBodyStart (eolCount + 1) rest := by
  have cases : eolCount = 0 ∨ eolCount = 1 := by omega
  rcases cases with rfl | rfl <;> simp [findBodyStart]

theorem findBodyStart_cr {eolCount : Nat} (few : eolCount < 2) :
    findBodyStart eolCount [carriageReturn] = findBodyStart (eolCount + 1) [] := by
  have cases : eolCount = 0 ∨ eolCount = 1 := by omega
  rcases cases with rfl | rfl <;> rfl

theorem findBodyStart_line {line : List UInt8} (nonempty : line ≠ []) (notCr : carriageReturn ∉ line)
    (notLf : lineFeed ∉ line) {eolCount : Nat} (few : eolCount < 2) (rest : List UInt8) :
    findBodyStart eolCount (line ++ rest) = findBodyStart 0 rest := by
  induction line generalizing eolCount with
  | nil => exact absurd rfl nonempty
  | cons first later ih =>
    obtain ⟨firstCr, laterCr⟩ := not_or.mp (mt List.mem_cons.mpr notCr)
    obtain ⟨firstLf, laterLf⟩ := not_or.mp (mt List.mem_cons.mpr notLf)
    rw [List.cons_append, findBodyStart_other few _ (Ne.symm firstCr) (Ne.symm firstLf)]
    cases later with
    | nil => rfl
    | cons second more => exact ih (List.cons_ne_nil _ _) laterCr laterLf (by decide)

theorem prefix_append_cases {part first second : List UInt8} (inside : part <+: first ++ second) :
    part <+: first ∨ ∃ behind, part = first ++ behind ∧ behind <+: second := by
  rcases List.prefix_or_prefix_of_prefix inside (List.prefix_append first second) with within | ⟨behind, rfl⟩
  · exact .inl within
  · exact .inr ⟨behind, rfl, (List.prefix_append_right_inj first).mp inside⟩

theorem findBodyStart_part {lines : List (List UInt8)} (plain : PlainLines lines) {eolCount : Nat} (few : eolCount < 2)
    (last : lines = [] → eolCount = 1) {part : List UInt8} (inside : part <+: fields lines) :
    findBodyStart eolCount part = if part.length + 2 ≤ (fields lines).length then none else some [] := by
  induction lines generalizing eolCount part with
  | nil =>
    obtain rfl := last rfl
    rcases part with _ | ⟨first, _ | ⟨second, _ | ⟨third, rest⟩⟩⟩
    · rfl
    · obtain ⟨rfl, -⟩ := List.cons_prefix_cons.mp inside
      rfl
    · obtain ⟨rfl, within⟩ := List.cons_prefix_cons.mp inside
      obtain ⟨rfl, -⟩ := List.cons_prefix_cons.mp within
      rfl
    · simpa [fields] using inside.length_le
  | cons line rest ih =>
    obtain ⟨⟨nonempty, notCr, notLf⟩, plainRest⟩ := List.forall_mem_cons.mp plain
    rw [fields_cons] at inside ⊢
    -- The part ends within the line, or goes on behind it.
    rcases prefix_append_cases inside with within | ⟨behind, rfl, within⟩
    · have short := within.length_le
      have scan : findBodyStart eolCount part = none := by
        cases part with
        | nil => exact findBodyStart_nil few
        | cons first later =>
          have inLine := List.Sublist.subset within.sublist
          have scan := findBodyStart_line (List.cons_ne_nil first later) (mt (@inLine _) notCr) (mt (@inLine _) notLf)
            few []
          rw [List.append_nil] at scan
          rw [scan, findBodyStart_nil (by decide)]
      rw [scan, if_pos (by simp; omega)]
    · rw [findBodyStart_line nonempty notCr notLf few]
      rcases behind with _ | ⟨first, _ | ⟨second, later⟩⟩
      · rw [findBodyStart_nil (by decide), if_pos (by simp)]
      · obtain ⟨rfl, -⟩ := List.cons_prefix_cons.mp within
        rw [findBodyStart_cr (by decide), findBodyStart_nil (by decide), if_pos]
        simp [fields]
        omega
      · obtain ⟨rfl, second⟩ := List.cons_prefix_cons.mp within
        obtain ⟨rfl, deeper⟩ := List.cons_prefix_cons.mp second
        rw [findBodyStart_crlf (by decide), ih plainRest (by decide) (fun _ => rfl) deeper]
        simp only [List.length_append, List.length_cons]
        congr 1
        simp only [eq_iff_iff]
        omega

theorem length_fields_pos {lines : List (List UInt8)} (plain : PlainLines lines) (nonempty : lines ≠ []) :
    5 ≤ (fields lines).length := by
  obtain ⟨line, rest, rfl⟩ := List.exists_cons_of_ne_nil nonempty
  have some := List.length_pos_iff.mpr (plain line List.mem_cons_self).1
  rw [fields_cons]
  simp [fields]
  omega

theorem take_two_part {lines : List (List UInt8)} (plain : PlainLines lines) (nonempty : lines ≠ []) {part : List UInt8}
    (inside : part <+: fields lines) : part.take 2 ≠ crlf := by
  obtain ⟨line, rest, rfl⟩ := List.exists_cons_of_ne_nil nonempty
  obtain ⟨some, notCr, -⟩ := plain line List.mem_cons_self
  obtain ⟨first, later, rfl⟩ := List.exists_cons_of_ne_nil some
  intro same
  cases part with
  | nil => cases same
  | cons head tail =>
    rw [fields_cons, List.cons_append] at inside
    obtain ⟨rfl, -⟩ := List.cons_prefix_cons.mp inside
    obtain rfl : head = carriageReturn := by simpa using congrArg List.head? same
    exact notCr List.mem_cons_self

theorem isTrailerComplete_part {lines : List (List UInt8)} (plain : PlainLines lines) (nonempty : lines ≠ [])
    {part : List UInt8} (inside : part <+: fields lines) :
    isTrailerComplete part = decide ((fields lines).length < part.length + 2) := by
  have long := length_fields_pos plain nonempty
  unfold isTrailerComplete
  split_ifs with few other
  · exact (decide_eq_false (by omega)).symm
  · exact absurd other (take_two_part plain nonempty inside)
  · rw [findBodyStart_part plain (by decide) (fun none => absurd none nonempty) inside]
    split_ifs with early
    · exact (decide_eq_false (by omega)).symm
    · exact (decide_eq_true (by omega)).symm

theorem getTrailerSize_part {lines : List (List UInt8)} (plain : PlainLines lines) (nonempty : lines ≠ [])
    {part : List UInt8} (inside : part <+: fields lines) : getTrailerSize part = part.length := by
  unfold getTrailerSize
  split_ifs with few other
  · rfl
  · exact absurd other (take_two_part plain nonempty inside)
  · rw [findBodyStart_part plain (by decide) (fun none => absurd none nonempty) inside]
    split_ifs <;> rfl

end Trailers

end CcspCommon.HttpMboChunked
