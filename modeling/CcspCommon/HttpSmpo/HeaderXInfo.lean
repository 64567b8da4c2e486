import CcspCommon.AnscAsn1.LengthCodec
import CcspCommon.AnscPlatform.AnscString
import CcspCommon.AnscPlatform.Packet
import CcspCommon.Shared.ChainTable
import CcspCommon.Shared.Run

set_option autoImplicit false

namespace CcspCommon.HttpSmpo

open CcspCommon.Shared CcspCommon.AnscPlatform
open CcspCommon.AnscAsn1 (memoryOfUlong ulongSize)

section Strings

def toLower (c : UInt8) : UInt8 := if 0x41 ≤ c ∧ c ≤ 0x5A then c + 0x20 else c

-- Whether `strncmp`, or `strncasecmp` with `toLower`, answers 0. Behind its last byte a text has its NUL.
def equalFrom (fold : UInt8 → UInt8) : Nat → List UInt8 → List UInt8 → Bool
  | 0, _, _ => true
  | len + 1, s1, s2 =>
    if fold (s1.headD 0) = fold (s2.headD 0) then
      if s1.headD 0 = 0 then true else equalFrom fold len s1.tail s2.tail
    else false

def anscEqualString2 (s1 s2 : List UInt8) (len : Nat) (bCaseSensitive : Bool) : Bool :=
  if bCaseSensitive then equalFrom id len s1 s2 else equalFrom toLower len s1 s2

def ulongOfChar (machine : Machine) (c : UInt8) : machine.Ulong :=
  if machine.charIsSigned then c.toBitVec.signExtend _ else c.toBitVec.setWidth _

def hashOctets (machine : Machine) : machine.Ulong → machine.Ulong → List UInt8 → machine.Ulong
  | _, ulHashTemp, [] => ulHashTemp
  | i, ulHashTemp, c :: rest => hashOctets machine (i + 1) (ulHashTemp + i * ulongOfChar machine c) rest

def hashString (machine : Machine) (string : List UInt8) (ulTableSize : Nat) : Nat :=
  (hashOctets machine 0 0 string).toNat % ulTableSize

abbrev CString := { octets : List UInt8 // 0 ∉ octets }

end Strings

section Model

def headerTableSize : Nat := 32

def headerMaxLen : Nat := 64

@[ext] structure HeaderXInfo (F : Type) where
  name : List UInt8
  headerId : Nat
  xFunc : F
  terminated : 0 ∉ name

variable (machine : Machine) {F : Type}

def headerBucket (name : List UInt8) : Fin headerTableSize :=
  ⟨hashString machine name headerTableSize, Nat.mod_lt _ (by decide)⟩

abbrev HeaderXList (F : Type) := Fin headerTableSize → List (HeaderXInfo F)

def sizeBehindName : Nat := headerMaxLen + ulongSize machine + ulongSize machine

variable (behind : F → CString)

/-- The string at `Name` when `HeaderId` has been stored behind the name and its NUL, or over what of them is
too long; `behind` reads on from `xFunc`. -/
def nameInBlock (pName : CString) (ulHeaderId : Nat) (xFunc : F) : List UInt8 :=
  ((pName.val ++ [0]).take headerMaxLen ++ (memoryOfUlong machine ulHeaderId ++ (behind xFunc).val)).takeWhile (· ≠ 0)

theorem nameInBlock_terminated (pName : CString) (ulHeaderId : Nat) (xFunc : F) :
    0 ∉ nameInBlock machine behind pName ulHeaderId xFunc :=
  fun inside => by simpa using List.mem_takeWhile_imp inside

-- `HttpSmpoRegisterHeaderXInfo`; there is no result where the copy of the name leaves the block.
def registerHeaderXInfo (table : HeaderXList F) (pName : CString) (ulHeaderId : Nat) (xFunc : F)
    (allocated : Bool) : Option (Status × HeaderXList F) :=
  if !allocated then some (.resources, table)
  else if pName.val.length < sizeBehindName machine then
    let pXinfo := ⟨nameInBlock machine behind pName ulHeaderId xFunc, ulHeaderId, xFunc,
      nameInBlock_terminated machine behind pName ulHeaderId xFunc⟩
    let ulHashIndex := headerBucket machine pName.val
    some (.success, Function.update table ulHashIndex (pXinfo :: table ulHashIndex))
  else none

def removeXTable : HeaderXList F := fun _ => []

def getHeaderXInfo (table : HeaderXList F) (pName : List UInt8) : Option (HeaderXInfo F) :=
  (table (headerBucket machine pName)).find? fun pXinfo =>
    pName.length = pXinfo.name.length && anscEqualString2 pXinfo.name pName pName.length false

inductive XTableCall (F : Type)
  | register (pName : CString) (ulHeaderId : Nat) (xFunc : F) (allocated : Bool)
  | removeXTable

def xTableStep (table : HeaderXList F) : XTableCall F → Option (HeaderXList F)
  | .register pName ulHeaderId xFunc allocated =>
    (registerHeaderXInfo machine behind table pName ulHeaderId xFunc allocated).map Prod.snd
  | .removeXTable => some removeXTable

def ascii (text : String) : List UInt8 := text.toList.map fun c => c.toNat.toUInt8

def allHeaders : List (String × Nat) :=
  [("Accept", 1), ("Accept-Charset", 2), ("Accept-Encoding", 3), ("Accept-Language", 4), ("Accept-Ranges", 5),
    ("Age", 6), ("Allow", 7), ("Authorization", 8), ("Cache-Control", 9), ("Connection", 10),
    ("Content-Encoding", 11), ("Content-Language", 12), ("Content-Length", 13), ("Content-Location", 14),
    ("Content-MD5", 15), ("Content-Range", 16), ("Content-Type", 17), ("Date", 18), ("ETag", 19),
    ("Expect", 20), ("Expires", 21), ("From", 22), ("Host", 23), ("If-Match", 24), ("If-Modified-Since", 25),
    ("If-None-Match", 26), ("If-Range", 27), ("If-Unmodified-Since", 28), ("Last-Modified", 29),
    ("Location", 30), ("Max-Forwards", 31), ("Pragma", 32), ("Proxy-Authenticate", 33),
    ("Proxy-Authorization", 34), ("Range", 35), ("Referer", 36), ("Retry-After", 37), ("Server", 38),
    ("TE", 39), ("Trailer", 40), ("Transfer-Encoding", 41), ("Upgrade", 42), ("User-Agent", 43), ("Vary", 44),
    ("Via", 45), ("Warning", 46), ("WWW-Authenticate", 47), ("Proxy-Connection", 129), ("Cookie", 130),
    ("Set-Cookie", 131), ("Cookie2", 132), ("Set-Cookie2", 133)]

theorem allHeaders_table : (∀ header ∈ allHeaders, 0 ∉ ascii header.1 ∧ (ascii header.1).length < headerMaxLen) ∧
    (allHeaders.map fun header => (ascii header.1).map toLower).Nodup := by decide +kernel

theorem allHeaders_terminated : ∀ header ∈ allHeaders, 0 ∉ ascii header.1 :=
  fun header member => (allHeaders_table.1 header member).1

def allHeaderNames : List (CString × Nat) :=
  allHeaders.attach.map fun header =>
    (⟨ascii header.val.1, allHeaders_terminated header.val header.property⟩, header.val.2)

def registerCalls {F : Type} (parse : Nat → F) (headers : List (CString × Nat)) : List (XTableCall F) :=
  headers.map fun header => .register header.1 header.2 (parse header.2) true

def registerAllHeadersXInfo {F : Type} (parse : Nat → F) : List (XTableCall F) := registerCalls parse allHeaderNames

end Model

section Purpose

def SameLetter (x y : UInt8) : Prop :=
  x = y ∨ (0x41 ≤ x ∧ x ≤ 0x5A ∧ y = x + 0x20) ∨ (0x41 ≤ y ∧ y ≤ 0x5A ∧ x = y + 0x20)

instance (x y : UInt8) : Decidable (SameLetter x y) := inferInstanceAs (Decidable (_ ∨ _ ∨ _))

def CaseVariant (name variant : List UInt8) : Prop := List.Forall₂ SameLetter name variant

instance (name variant : List UInt8) : Decidable (CaseVariant name variant) :=
  inferInstanceAs (Decidable (List.Forall₂ _ _ _))

variable {F : Type}

def registered (entries : List (HeaderXInfo F)) : XTableCall F → List (HeaderXInfo F)
  | .register pName ulHeaderId xFunc allocated =>
    if !allocated then entries else ⟨pName.val, ulHeaderId, xFunc, pName.property⟩ :: entries
  | .removeXTable => []

def XTableCall.Fits : XTableCall F → Prop
  | .register pName _ _ allocated => allocated → pName.val.length < headerMaxLen
  | .removeXTable => True

def registrations (calls : List (XTableCall F)) : List (HeaderXInfo F) := calls.foldl registered []

end Purpose

section Letters

theorem sameLetter_iff (x y : UInt8) : SameLetter x y ↔ toLower x = toLower y := by
  simp only [SameLetter, toLower, ← UInt8.toNat_inj, UInt8.le_iff_toNat_le]
  have small := x.toNat_lt
  have smallToo := y.toNat_lt
  split <;> split <;> simp only [UInt8.toNat_add, UInt8.reduceToNat] at * <;> omega

theorem caseVariant_iff (name variant : List UInt8) :
    CaseVariant name variant ↔ name.map toLower = variant.map toLower := by
  induction name generalizing variant with
  | nil => cases variant <;> simp [CaseVariant]
  | cons x name ih =>
    cases variant with
    | nil => simp [CaseVariant]
    | cons y variant =>
      rw [List.map_cons, List.map_cons, List.cons.injEq, ← sameLetter_iff, ← ih]
      exact List.forall₂_cons

theorem CaseVariant.length {name variant : List UInt8} (same : CaseVariant name variant) :
    name.length = variant.length := List.Forall₂.length_eq same

theorem CaseVariant.trans {first second third : List UInt8} (same : CaseVariant first second)
    (again : CaseVariant second third) : CaseVariant first third := by
  rw [caseVariant_iff] at same again ⊢
  exact same.trans again

theorem CaseVariant.symm {name variant : List UInt8} (same : CaseVariant name variant) : CaseVariant variant name := by
  rw [caseVariant_iff] at same ⊢
  exact same.symm

theorem equalFrom_whole (fold : UInt8 → UInt8) {name text : List UInt8} (terminated : 0 ∉ name)
    (long : text.length = name.length) :
    equalFrom fold text.length name text = true ↔ name.map fold = text.map fold := by
  induction name generalizing text with
  | nil =>
    obtain rfl := List.eq_nil_of_length_eq_zero long
    simp [equalFrom]
  | cons c name ih =>
    cases text with
    | nil => cases long
    | cons d text =>
      have later := ih (fun inside => terminated (List.mem_cons_of_mem c inside)) (Nat.succ.inj long)
      have notNul : c ≠ 0 := fun nul => terminated (nul ▸ List.mem_cons_self)
      simp [equalFrom, later, notNul]

theorem anscEqualString2_iff {name text : List UInt8} (terminated : 0 ∉ name) (long : text.length = name.length) :
    anscEqualString2 name text text.length false = true ↔ CaseVariant name text := by
  rw [caseVariant_iff]
  exact equalFrom_whole toLower terminated long

end Letters

section Buckets

variable (machine : Machine)

theorem tableSize_dvd : headerTableSize ∣ 2 ^ machine.ulongSize.bits := by
  cases machine.ulongSize <;> decide

theorem ulong_add (x y : machine.Ulong) : (x + y).toNat ≡ x.toNat + y.toNat [MOD headerTableSize] := by
  rw [BitVec.toNat_add]
  exact (Nat.mod_modEq _ _).of_dvd (tableSize_dvd machine)

theorem ulong_mul (x y : machine.Ulong) : (x * y).toNat ≡ x.toNat * y.toNat [MOD headerTableSize] := by
  rw [BitVec.toNat_mul]
  exact (Nat.mod_modEq _ _).of_dvd (tableSize_dvd machine)

theorem ulongOfChar_ascii {c : UInt8} (ascii : c.toNat < 128) : (ulongOfChar machine c).toNat = c.toNat := by
  have wide := machine.ulongSize.bits_ge
  have positive : c.toBitVec.msb = false := by
    rw [BitVec.msb_eq_false_iff_two_mul_lt]
    change 2 * c.toNat < 2 ^ 8
    omega
  have fits : c.toNat < 2 ^ machine.ulongSize.bits :=
    Nat.lt_of_lt_of_le (by omega) (Nat.pow_le_pow_right (by decide) wide)
  rw [ulongOfChar, BitVec.signExtend_eq_setWidth_of_msb_false positive, ite_self, BitVec.toNat_setWidth]
  exact Nat.mod_eq_of_lt fits

theorem ulongOfChar_sameLetter {x y : UInt8} (same : SameLetter x y) :
    (ulongOfChar machine x).toNat ≡ (ulongOfChar machine y).toNat [MOD headerTableSize] := by
  rcases same with rfl | ⟨low, high, rfl⟩ | ⟨low, high, rfl⟩
  next => rfl
  all_goals
    rw [UInt8.le_iff_toNat_le] at low high
    simp only [UInt8.reduceToNat] at low high
  next =>
    have upper : (x + 0x20).toNat = x.toNat + 32 := by
      simp only [UInt8.toNat_add, UInt8.reduceToNat]
      omega
    rw [ulongOfChar_ascii machine (by omega), ulongOfChar_ascii machine (by omega), upper]
    exact (Nat.add_modEq_right).symm
  next =>
    have upper : (y + 0x20).toNat = y.toNat + 32 := by
      simp only [UInt8.toNat_add, UInt8.reduceToNat]
      omega
    rw [ulongOfChar_ascii machine (by omega), ulongOfChar_ascii machine (by omega), upper]
    exact Nat.add_modEq_right

theorem hashOctets_modEq {name variant : List UInt8} (same : CaseVariant name variant)
    (i : machine.Ulong) {sum sumToo : machine.Ulong} (together : sum.toNat ≡ sumToo.toNat [MOD headerTableSize]) :
    (hashOctets machine i sum name).toNat ≡ (hashOctets machine i sumToo variant).toNat [MOD headerTableSize] := by
  induction same generalizing i sum sumToo with
  | nil => exact together
  | @cons x y name variant first rest ih =>
    rw [hashOctets, hashOctets]
    apply ih
    have product := ((ulongOfChar_sameLetter machine first).mul_left i.toNat)
    calc (sum + i * ulongOfChar machine x).toNat
        ≡ sum.toNat + (i * ulongOfChar machine x).toNat [MOD headerTableSize] := ulong_add machine _ _
      _ ≡ sum.toNat + i.toNat * (ulongOfChar machine x).toNat [MOD headerTableSize] :=
        (ulong_mul machine _ _).add_left _
      _ ≡ sumToo.toNat + i.toNat * (ulongOfChar machine y).toNat [MOD headerTableSize] := together.add product
      _ ≡ sumToo.toNat + (i * ulongOfChar machine y).toNat [MOD headerTableSize] :=
        ((ulong_mul machine _ _).add_left _).symm
      _ ≡ (sumToo + i * ulongOfChar machine y).toNat [MOD headerTableSize] := (ulong_add machine _ _).symm

theorem headerBucket_caseVariant {name variant : List UInt8} (same : CaseVariant name variant) :
    headerBucket machine name = headerBucket machine variant :=
  Fin.ext (hashOctets_modEq machine same 0 rfl)

end Buckets

section Dispatch

variable (machine : Machine) {F : Type} (behind : F → CString)

theorem nameInBlock_of_fits {pName : CString} (fits : pName.val.length < headerMaxLen) (ulHeaderId : Nat) (xFunc : F) :
    nameInBlock machine behind pName ulHeaderId xFunc = pName.val := by
  have whole : (pName.val ++ [0]).take headerMaxLen = pName.val ++ [0] :=
    List.take_of_length_le (by rw [List.length_append]; exact fits)
  have noNul : ∀ c ∈ pName.val, decide (c ≠ 0) = true :=
    fun c inside => decide_eq_true fun nul => pName.property (nul ▸ inside)
  rw [nameInBlock, whole, List.append_assoc, List.takeWhile_append_of_pos noNul]
  simp

abbrev HeldIn (entries : List (HeaderXInfo F)) (table : HeaderXList F) : Prop :=
  Chained (fun entry => headerBucket machine entry.name) entries table

theorem xTableStep_holds {table : HeaderXList F} {entries : List (HeaderXInfo F)}
    (holds : HeldIn machine entries table) {call : XTableCall F} (fits : call.Fits) :
    ∃ next, xTableStep machine behind table call = some next ∧ HeldIn machine (registered entries call) next := by
  cases call with
  | removeXTable => exact ⟨_, rfl, chained_empty⟩
  | register pName ulHeaderId xFunc allocated =>
    cases allocated with
    | false => exact ⟨table, rfl, holds⟩
    | true =>
      have short := fits rfl
      have inside : pName.val.length < sizeBehindName machine := by
        rw [sizeBehindName]
        omega
      have name := nameInBlock_of_fits machine behind short ulHeaderId xFunc
      simp only [xTableStep, registerHeaderXInfo, Bool.not_true, Bool.false_eq_true, if_false, if_pos inside,
        registered, Option.map_some, name]
      exact ⟨_, rfl, holds.push rfl⟩

theorem runAll_holds (calls : List (XTableCall F)) {table : HeaderXList F} {entries : List (HeaderXInfo F)}
    (holds : HeldIn machine entries table) (fits : ∀ call ∈ calls, call.Fits) :
    ∃ last, runAll (xTableStep machine behind) table calls = some last ∧
      HeldIn machine (calls.foldl registered entries) last := by
  induction calls generalizing table entries with
  | nil => exact ⟨table, rfl, holds⟩
  | cons call calls ih =>
    obtain ⟨first, later⟩ := List.forall_mem_cons.mp fits
    obtain ⟨next, step, held⟩ := xTableStep_holds machine behind holds first
    obtain ⟨last, run, heldToo⟩ := ih held later
    exact ⟨last, by rw [runAll, step]; exact run, heldToo⟩

theorem getHeaderXInfo_eq {table : HeaderXList F} {entries : List (HeaderXInfo F)}
    (holds : HeldIn machine entries table) (pName : List UInt8) :
    getHeaderXInfo machine table pName = entries.find? fun entry => CaseVariant entry.name pName := by
  have test : (fun pXinfo : HeaderXInfo F => decide (pName.length = pXinfo.name.length) &&
      anscEqualString2 pXinfo.name pName pName.length false) = fun entry => decide (CaseVariant entry.name pName) := by
    funext entry
    by_cases long : pName.length = entry.name.length
    next =>
      rw [decide_eq_true long, Bool.true_and, Bool.eq_iff_iff, decide_eq_true_iff,
        anscEqualString2_iff entry.terminated long]
    next =>
      rw [decide_eq_false long, Bool.false_and, decide_eq_false fun same => long same.length.symm]
  rw [getHeaderXInfo, test]
  refine holds.find? fun entry _ same => ?_
  exact headerBucket_caseVariant machine (of_decide_eq_true same)

theorem header_found_in_any_case (calls : List (XTableCall F)) (fits : ∀ call ∈ calls, call.Fits) :
    ∃ table, runAll (xTableStep machine behind) removeXTable calls = some table ∧
      (∀ pName, getHeaderXInfo machine table pName =
        (registrations calls).find? fun entry => CaseVariant entry.name pName) ∧
      (∀ entry ∈ registrations calls,
        (∀ other ∈ registrations calls, CaseVariant other.name entry.name → other = entry) →
        ∀ variant, CaseVariant entry.name variant → getHeaderXInfo machine table variant = some entry) ∧
      ∀ name variant, CaseVariant name variant → headerBucket machine name = headerBucket machine variant := by
  obtain ⟨table, run, holds⟩ := runAll_holds machine behind calls chained_empty fits
  refine ⟨table, run, getHeaderXInfo_eq machine holds, ?_, fun name variant => headerBucket_caseVariant machine⟩
  intro entry member alone variant same
  rw [getHeaderXInfo_eq machine holds]
  obtain ⟨found, known⟩ : ∃ found, (registrations calls).find? (fun other => CaseVariant other.name variant) =
      some found := by
    rw [← Option.isSome_iff_exists, List.find?_isSome]
    exact ⟨entry, member, decide_eq_true same⟩
  have sameToo : CaseVariant found.name variant := by simpa using List.find?_some known
  have unique := alone found (List.mem_of_find?_eq_some known) (sameToo.trans same.symm)
  exact unique ▸ known

def noString (_ : Unit) : CString := ⟨[], List.not_mem_nil⟩

theorem header_found_accept :
    ∃ table, runAll (xTableStep ⟨.eight, true, true⟩ noString) removeXTable
        [.register ⟨[0x54, 0x45], by decide⟩ 39 () true, .register ⟨[0x41, 0x67, 0x65], by decide⟩ 6 () true] =
          some table ∧
      (getHeaderXInfo ⟨.eight, true, true⟩ table [0x74, 0x65]).map HeaderXInfo.headerId = some 39 := by
  obtain ⟨table, run, found, -⟩ := header_found_in_any_case ⟨.eight, true, true⟩ noString
    [.register ⟨[0x54, 0x45], by decide⟩ 39 () true, .register ⟨[0x41, 0x67, 0x65], by decide⟩ 6 () true]
    (by
      intro call member
      simp only [List.mem_cons, List.not_mem_nil, or_false] at member
      obtain rfl | rfl := member <;> exact fun _ => by decide)
  refine ⟨table, run, ?_⟩
  rw [found]
  decide

def longName : CString := ⟨List.replicate headerMaxLen 0x61, by decide⟩

/-- The first byte of `HeaderId` stands where the NUL of the name was. -/
theorem long_header_not_found :
    ∃ table, runAll (xTableStep ⟨.eight, true, true⟩ noString) removeXTable [.register longName 39 () true] =
        some table ∧
      getHeaderXInfo ⟨.eight, true, true⟩ table longName.val = none := by
  refine ⟨_, rfl, ?_⟩
  decide +kernel

theorem allHeaders_fit : ∀ header ∈ allHeaders, (ascii header.1).length < headerMaxLen :=
  fun header member => (allHeaders_table.1 header member).2

theorem allHeaders_apart : ∀ header ∈ allHeaders, ∀ other ∈ allHeaders,
    CaseVariant (ascii header.1) (ascii other.1) → header = other := by
  intro header member other otherMember same
  exact List.inj_on_of_nodup_map allHeaders_table.2 member otherMember ((caseVariant_iff _ _).mp same)

theorem mem_registered (headers : List (CString × Nat)) (parse : Nat → F) (entries : List (HeaderXInfo F))
    (entry : HeaderXInfo F) :
    entry ∈ (registerCalls parse headers).foldl registered entries ↔
      (∃ header ∈ headers, entry.name = header.1.val ∧ entry.headerId = header.2 ∧ entry.xFunc = parse header.2) ∨
        entry ∈ entries := by
  induction headers generalizing entries with
  | nil => simp [registerCalls]
  | cons header headers ih =>
    rw [registerCalls, List.map_cons, List.foldl_cons, ← registerCalls, ih, registered, if_neg (by decide),
      List.mem_cons, HeaderXInfo.ext_iff]
    simp only [List.mem_cons, exists_eq_or_imp]
    rw [← or_assoc, or_comm (a := ∃ _, _)]

theorem registerAllHeadersXInfo_fit (parse : Nat → F) : ∀ call ∈ registerAllHeadersXInfo parse, call.Fits := by
  intro call member
  obtain ⟨header, known, rfl⟩ := List.mem_map.mp member
  obtain ⟨source, -, rfl⟩ := List.mem_map.mp known
  exact fun _ => allHeaders_fit source.val source.property

theorem registerAllHeadersXInfo_found (parse : Nat → F) :
    ∃ table, runAll (xTableStep machine behind) removeXTable (registerAllHeadersXInfo parse) = some table ∧
      ∀ header ∈ allHeaders, ∀ variant, CaseVariant (ascii header.1) variant →
        ∃ entry, getHeaderXInfo machine table variant = some entry ∧ entry.headerId = header.2 ∧
          entry.xFunc = parse header.2 := by
  obtain ⟨table, run, holds⟩ := runAll_holds machine behind _ chained_empty (registerAllHeadersXInfo_fit parse)
  refine ⟨table, run, fun header member variant same => ?_⟩
  have entries := fun entry => mem_registered allHeaderNames parse [] entry
  obtain ⟨found, known⟩ : ∃ found, getHeaderXInfo machine table variant = some found := by
    rw [← Option.isSome_iff_exists, getHeaderXInfo_eq machine holds, List.find?_isSome]
    refine ⟨⟨ascii header.1, header.2, parse header.2, allHeaders_terminated header member⟩,
      (entries _).mpr (.inl ⟨(⟨ascii header.1, allHeaders_terminated header member⟩, header.2), ?_, rfl, rfl, rfl⟩),
      decide_eq_true same⟩
    exact List.mem_map.mpr ⟨⟨header, member⟩, List.mem_attach _ _, rfl⟩
  refine ⟨found, known, ?_⟩
  rw [getHeaderXInfo_eq machine holds] at known
  have sameToo : CaseVariant found.name variant := by simpa using List.find?_some known
  obtain ⟨other, otherMember, name, id, function⟩ | absent := (entries found).mp (List.mem_of_find?_eq_some known)
  next =>
    obtain ⟨⟨source, sourceMember⟩, -, rfl⟩ := List.mem_map.mp otherMember
    have unique := allHeaders_apart source sourceMember header member ((name ▸ sameToo).trans same.symm)
    exact ⟨id.trans (congrArg Prod.snd unique), function.trans (congrArg (fun header => parse header.2) unique)⟩
  next => cases absent

end Dispatch

end CcspCommon.HttpSmpo
