import CcspCommon.HttpMboChunked.ChunkLine

set_option autoImplicit false

namespace CcspCommon.HttpMboChunked

section Extensions

abbrev blank (c : UInt8) : Prop := c = 0x20 ∨ c = 0x09

abbrev lineEnd (c : UInt8) : Prop := c = carriageReturn ∨ c = lineFeed

structure ChunkExtension where
  blanks : List UInt8
  name : List UInt8
  value : Option (List UInt8)
  white : ∀ c ∈ blanks, blank c
  token : ∀ c ∈ name, c ≠ semicolon ∧ c ≠ equal ∧ ¬ lineEnd c
  start : ∀ first, name.head? = some first → ¬ blank first
  plain : ∀ text, value = some text → ∀ c ∈ text, c ≠ semicolon ∧ ¬ lineEnd c

namespace ChunkExtension

def assigned : Option (List UInt8) → List UInt8
  | none => []
  | some text => equal :: text

-- What stands from the name on.
def content (extension : ChunkExtension) : List UInt8 := extension.name ++ assigned extension.value

def text (extension : ChunkExtension) : List UInt8 := semicolon :: (extension.blanks ++ extension.content)

def stored (extension : ChunkExtension) : List UInt8 := extension.name.take (httpMaxChunkTokenSize - 1)

theorem content_plain (extension : ChunkExtension) :
    ∀ c ∈ extension.content, c ≠ semicolon ∧ ¬ lineEnd c := by
  intro c member
  rcases List.mem_append.mp member with inName | inValue
  · exact ⟨(extension.token c inName).1, (extension.token c inName).2.2⟩
  · cases value : extension.value with
    | none =>
      rw [value] at inValue
      cases inValue
    | some text =>
      rw [value] at inValue
      rcases List.mem_cons.mp inValue with rfl | inText
      · decide
      · exact extension.plain text value c inText

end ChunkExtension

def extensionText (extensions : List ChunkExtension) : List UInt8 := extensions.flatMap ChunkExtension.text

theorem extensionText_plain (extensions : List ChunkExtension) : ∀ c ∈ extensionText extensions, ¬ lineEnd c := by
  intro c member
  obtain ⟨extension, -, inside⟩ := List.mem_flatMap.mp member
  rcases List.mem_cons.mp inside with rfl | behind
  · decide
  · rcases List.mem_append.mp behind with white | content
    · rcases extension.white c white with rfl | rfl <;> decide
    · exact (extension.content_plain c content).2

theorem head_content (extension : ChunkExtension) (rest : List ChunkExtension) {first : UInt8}
    (head : (extension.content ++ extensionText rest).head? = some first) :
    ¬ (blank first ∨ first = carriageReturn) := by
  cases name : extension.name with
  | cons c more =>
    rw [ChunkExtension.content, name] at head
    cases head
    rintro (white | same)
    · exact extension.start first (by rw [name]; rfl) white
    · exact (extension.token first (by rw [name]; exact List.mem_cons_self)).2.2 (.inl same)
  | nil =>
    rw [ChunkExtension.content, name] at head
    cases value : extension.value with
    | some text =>
      rw [value] at head
      cases head
      decide
    | none =>
      rw [value] at head
      cases rest with
      | nil => cases head
      | cons next others =>
        cases head
        decide

theorem linearWhiteSpace_content (extension : ChunkExtension) (rest : List ChunkExtension) :
    linearWhiteSpace (extension.blanks ++ (extension.content ++ extensionText rest)) =
      extension.content ++ extensionText rest := by
  have white : ∀ c ∈ extension.blanks, (decide (c = 0x20 ∨ c = 0x09 ∨ c = carriageReturn)) = true := by
    intro c member
    exact decide_eq_true ((extension.white c member).imp id .inl)
  rw [linearWhiteSpace, List.dropWhile_append_of_pos white]
  cases content : extension.content ++ extensionText rest with
  | nil => rfl
  | cons first behind =>
    have other := head_content extension rest (congrArg List.head? content)
    exact List.dropWhile_cons_of_neg (by simpa [or_assoc] using other)

theorem memchr_content (extension : ChunkExtension) (rest : List ChunkExtension) :
    memchr semicolon (extension.content ++ extensionText rest) =
      if rest = [] then none else some (extensionText rest) := by
  have absent : semicolon ∉ extension.content := fun member => (extension.content_plain _ member).1 rfl
  rw [memchr_append absent]
  cases rest with
  | nil => rfl
  | cons next others => exact if_pos rfl

theorem extToken_content (extension : ChunkExtension) (rest : List ChunkExtension) :
    extToken (extension.content ++ extensionText rest) = extension.stored := by
  have text : textBefore semicolon (extension.content ++ extensionText rest) = extension.content := by
    rw [textBefore, memchr_content]
    cases rest with
    | nil => exact List.append_nil _
    | cons next others =>
      rw [if_neg (List.cons_ne_nil _ _)]
      simp
  have absent : equal ∉ extension.name := fun member => (extension.token _ member).2.1 rfl
  have size : textBefore equal extension.content = extension.name := by
    rw [textBefore, ChunkExtension.content, memchr_append absent]
    cases extension.value with
    | none => simp [ChunkExtension.assigned, memchr]
    | some value => simp [ChunkExtension.assigned, memchr]
  have unfolded : extToken (extension.content ++ extensionText rest) =
      (extension.content ++ extensionText rest).take
        (if extension.name.length ≥ httpMaxChunkTokenSize then httpMaxChunkTokenSize - 1
          else extension.name.length) := by
    rw [extToken, text, size]
  rw [unfolded, ChunkExtension.stored, ChunkExtension.content, List.append_assoc]
  split_ifs with long
  · exact List.take_append_of_le_length (by omega)
  · rw [List.take_left, List.take_of_length_le (by omega)]

theorem parseExtensions_eq (left : Nat) (extension : ChunkExtension) (rest : List ChunkExtension) :
    parseExtensions left (some (extensionText (extension :: rest))) =
      if left ≤ rest.length + 1 then some (((extension :: rest).take left).map ChunkExtension.stored) else none := by
  induction left generalizing extension rest with
  | zero => rfl
  | succ left ih =>
    have next : linearWhiteSpace ((extensionText (extension :: rest)).drop 1) =
        extension.content ++ extensionText rest := by
      rw [← linearWhiteSpace_content, ← List.append_assoc]
      rfl
    rw [parseExtensions_succ, next, extToken_content, memchr_content]
    cases rest with
    | nil =>
      rw [if_pos rfl]
      cases left with
      | zero => rfl
      | succ left => rfl
    | cons second others =>
      rw [if_neg (List.cons_ne_nil _ _), ih, List.length_cons]
      split_ifs with enough more more
      · rfl
      · omega
      · omega
      · rfl

end Extensions

section Lines

structure ExtendedLine where
  digits : List UInt8
  padding : List UInt8
  extensions : List ChunkExtension
  nonempty : digits ≠ []
  hex : ∀ digit ∈ digits, (hexDigit digit).isSome
  white : ∀ c ∈ padding, blank c

def ExtendedLine.toChunkLine (line : ExtendedLine) : ChunkLine where
  digits := line.digits
  extension := line.padding ++ extensionText line.extensions
  nonempty := line.nonempty
  hex := line.hex
  ended := by
    intro first head
    cases padding : line.padding with
    | cons c more =>
      rw [padding] at head
      cases head
      rcases line.white first (by rw [padding]; exact List.mem_cons_self) with rfl | rfl <;> decide
    | nil =>
      rw [padding] at head
      cases extensions : line.extensions with
      | nil =>
        rw [extensions] at head
        cases head
      | cons extension rest =>
        rw [extensions] at head
        cases head
        decide
  plain := by
    have absent : ∀ c ∈ line.padding ++ extensionText line.extensions, ¬ lineEnd c := by
      intro c member
      rcases List.mem_append.mp member with padded | inside
      · rcases line.white c padded with rfl | rfl <;> decide
      · exact extensionText_plain line.extensions c inside
    exact ⟨fun member => absent _ member (.inl rfl), fun member => absent _ member (.inr rfl)⟩

def NamesExtensions (w : Nat) (line : ExtendedLine) : Prop :=
  ∃ info, parseChunkedLine w line.toChunkLine.bytes = some (some info) ∧
    info.extCount = min line.extensions.length httpMaxChunkExtNumber ∧
    info.extArray = (line.extensions.take httpMaxChunkExtNumber).map ChunkExtension.stored

theorem parseChunkedLine_line (w : Nat) (line : ExtendedLine) :
    (parseChunkedLine w line.toChunkLine.bytes).map (Option.map fun info => (info.extCount, info.extArray)) =
      if line.extensions.length = 0 ∨ httpMaxChunkExtNumber ≤ line.extensions.length then
        some (some (min line.extensions.length httpMaxChunkExtNumber,
          (line.extensions.take httpMaxChunkExtNumber).map ChunkExtension.stored))
      else none := by
  have ending : findCrLf line.toChunkLine.bytes = some line.toChunkLine.text.length := by
    simpa [ChunkLine.bytes] using findCrLf_line line.toChunkLine.plain_text []
  have text : line.toChunkLine.bytes.take line.toChunkLine.text.length = line.toChunkLine.text := by
    simp [ChunkLine.bytes]
  have digits : semicolon ∉ line.digits := List.count_eq_zero.mp (count_digits line.hex)
  have padding : semicolon ∉ line.padding := by
    intro member
    rcases line.white _ member with same | same <;> cases same
  have found : memchr semicolon line.toChunkLine.text = memchr semicolon (extensionText line.extensions) :=
    (memchr_append digits _).trans (memchr_append padding _)
  unfold parseChunkedLine
  simp only [ending, text, found]
  cases line.extensions with
  | nil => rfl
  | cons extension rest =>
    have here : memchr semicolon (extensionText (extension :: rest)) = some (extensionText (extension :: rest)) :=
      if_pos rfl
    simp only [here]
    rw [parseExtensions_eq, List.length_cons]
    by_cases enough : httpMaxChunkExtNumber ≤ rest.length + 1
    · rw [if_pos enough, if_pos (.inr enough), Option.map_some, Option.map_some, Option.map_some, List.length_map,
        List.length_take, List.length_cons, Nat.min_comm]
    · rw [if_neg enough, if_neg (not_or.mpr ⟨Nat.succ_ne_zero _, enough⟩)]
      rfl

theorem extensions_named_iff (w : Nat) (line : ExtendedLine) :
    (NamesExtensions w line ↔ line.extensions.length = 0 ∨ httpMaxChunkExtNumber ≤ line.extensions.length) ∧
      (parseChunkedLine w line.toChunkLine.bytes = none ↔
        ¬ (line.extensions.length = 0 ∨ httpMaxChunkExtNumber ≤ line.extensions.length)) := by
  have parsed := parseChunkedLine_line w line
  by_cases few : line.extensions.length = 0 ∨ httpMaxChunkExtNumber ≤ line.extensions.length
  · rw [if_pos few] at parsed
    obtain ⟨result, read, same⟩ := Option.map_eq_some_iff.mp parsed
    obtain ⟨info, rfl, names⟩ := Option.map_eq_some_iff.mp same
    obtain ⟨count, array⟩ := Prod.mk.inj names
    have known : parseChunkedLine w line.toChunkLine.bytes ≠ none := by
      rw [read]
      exact Option.some_ne_none _
    exact ⟨iff_of_true ⟨info, read, count, array⟩ few, iff_of_false known (not_not.mpr few)⟩
  · rw [if_neg few, Option.map_eq_none_iff] at parsed
    refine ⟨iff_of_false ?_ few, iff_of_true parsed few⟩
    rintro ⟨info, read, -⟩
    rw [parsed] at read
    cases read

def oneExtension : ExtendedLine where
  digits := [0x31]
  padding := []
  extensions := [{
    blanks := []
    name := [0x61]
    value := none
    white := nofun
    token := by decide +kernel
    start := by
      rintro first ⟨⟩
      decide
    plain := nofun }]
  nonempty := List.cons_ne_nil _ _
  hex := by decide +kernel
  white := nofun

theorem extension_lost :
    ¬ NamesExtensions 32 oneExtension ∧ parseChunkedLine 32 oneExtension.toChunkLine.bytes = none := by
  have absent : parseChunkedLine 32 oneExtension.toChunkLine.bytes = none := by decide +kernel
  refine ⟨?_, absent⟩
  rintro ⟨info, read, -⟩
  rw [absent] at read
  cases read

end Lines

end CcspCommon.HttpMboChunked
