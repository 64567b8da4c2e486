import CcspCommon.AnscPlatform.Ip6Grammar
import CcspCommon.Shared.Run

set_option autoImplicit false

namespace CcspCommon.AnscPlatform

open CcspCommon.Shared

section Fields

variable {machine : Machine}

def tailDots (machine : Machine) (tail : Text) : List UInt8 := dots machine (inetAddr machine tail)

theorem length_tailDots (machine : Machine) (tail : Text) : (tailDots machine tail).length = 4 := by
  rw [tailDots, dots, octets]
  cases machine.littleEndian <;> rfl

def endBytes (machine : Machine) (after : List Text) (tail : Option Text) : List UInt8 :=
  groupsBytes after ++ tail.toList.flatMap (tailDots machine)

theorem length_endBytes (machine : Machine) (after : List Text) (tail : Option Text) :
    (endBytes machine after tail).length = 2 * (after.length + 2 * tail.toList.length) := by
  rw [endBytes, List.length_append, length_groupsBytes]
  cases tail with
  | none => simp
  | some tail =>
    have four := length_tailDots machine tail
    simp only [Option.toList_some, List.flatMap_singleton, List.length_singleton, four]
    omega

structure Ends (stored : List UInt8) (after : List Text) (tail : Option Text) : Prop where
  groups : ∀ group ∈ after, IsGroup group
  valid : ∀ text ∈ tail.toList, isValidIpString text = true
  room : stored.length + 2 * (after.length + 2 * tail.toList.length) ≤ 16

theorem Ends.pieces {stored : List UInt8} {after : List Text} {tail : Option Text} (ends : Ends stored after tail) :
    ∀ piece ∈ after ++ tail.toList, piece ≠ [] ∧ ':' ∉ piece := by
  intro piece member
  cases List.mem_append.mp member with
  | inl here =>
    have group := ends.groups piece here
    exact ⟨group.nonempty, group.hex.free.1⟩
  | inr here =>
    have text := isTail_of_isValid (ends.valid piece here)
    exact ⟨text.nonempty, text.free⟩

theorem readFields_ends {stored : List UInt8} {after : List Text} {tail : Option Text} (ends : Ends stored after tail)
    (colonp : Option Nat) :
    readFields machine true (Ip6Form.ends (after ++ tail.toList)) stored colonp =
      .ok (stored ++ endBytes machine after tail, colonp) := by
  have room := ends.room
  cases tail with
  | none =>
    rw [Option.toList_none, List.length_nil] at room
    rw [Option.toList_none, List.append_nil, Ip6Form.ends, endBytes, Option.toList_none, List.flatMap_nil,
      List.append_nil]
    by_cases empty : after = []
    next =>
      have hex : AllHex [] := fun c member => absurd member List.not_mem_nil
      rw [if_pos empty, empty, readFields, if_pos hex, if_neg (by decide), if_neg (by decide), if_pos rfl, groupsBytes,
        List.flatMap_nil, List.append_nil]
    next =>
      rw [if_neg empty]
      exact readFields_all ends.groups empty (by omega) colonp
  | some tail =>
    have valid := ends.valid tail (by simp)
    have nonempty := (isTail_of_isValid valid).nonempty
    have size := length_groupsBytes after
    rw [Option.toList_some, List.length_singleton] at room
    rw [Option.toList_some, Ip6Form.ends, if_neg (by simp),
      readFields_groups ends.groups (fun both => nonempty both.1) (by omega),
      readTail_valid valid (by rw [List.length_append]; omega), endBytes, Option.toList_some,
      List.flatMap_singleton, tailDots, List.append_assoc]

theorem Ends.cons {stored : List UInt8} {group : Text} (proper : IsGroup group) {after : List Text} {tail : Option Text}
    (ends : Ends (stored ++ groupBytes (hexFold 0 group)) after tail) : Ends stored (group :: after) tail := by
  have room := ends.room
  have two : (groupBytes (hexFold 0 group)).length = 2 := rfl
  constructor
  next => exact List.forall_mem_cons.mpr ⟨proper, ends.groups⟩
  next => exact ends.valid
  next =>
    rw [List.length_append] at room
    rw [List.length_cons]
    omega

theorem endBytes_cons (machine : Machine) (group : Text) (after : List Text) (tail : Option Text) :
    endBytes machine (group :: after) tail = groupBytes (hexFold 0 group) ++ endBytes machine after tail := by
  rw [endBytes, endBytes, groupsBytes_cons, List.append_assoc]

theorem readTail_ok {field curtok : Text} {stored out : List UInt8} {colonp place : Option Nat}
    (read : readTail machine true field curtok stored colonp = .ok (out, place)) :
    stored.length + 4 ≤ 16 ∧ isValidIpString curtok = true ∧ out = stored ++ tailDots machine curtok ∧
      place = colonp := by
  rw [readTail] at read
  by_cases dotted : IsDotted field ∧ stored.length + 4 ≤ 16
  next =>
    rw [if_pos dotted, if_neg (by decide)] at read
    by_cases valid : isValidIpString curtok = true
    next =>
      rw [if_pos valid] at read
      cases read
      exact ⟨dotted.2, valid, rfl, rfl⟩
    next =>
      rw [if_neg valid] at read
      cases read
  next =>
    rw [if_neg dotted] at read
    cases read

theorem readTail_colon {field next : Text} {rest : List Text} {stored out : List UInt8} {colonp place : Option Nat} :
    readTail machine true field (joinTokens ':' (field :: next :: rest)) stored colonp ≠ .ok (out, place) := by
  intro read
  have colon : ':' ∈ joinTokens ':' (field :: next :: rest) := by
    rw [joinTokens]
    exact List.mem_append_right _ List.mem_cons_self
  exact isValidIpString_colon colon (readTail_ok read).2.1

theorem readFields_last_ok {last : Text} {stored out : List UInt8} {colonp place : Option Nat}
    (read : readFields machine true [last] stored colonp = .ok (out, place)) :
    place = colonp ∧ (last = [] ∧ out = stored ∨
      IsGroup last ∧ stored.length + 2 ≤ 16 ∧ out = stored ++ groupBytes (hexFold 0 last) ∨
      isValidIpString last = true ∧ stored.length + 4 ≤ 16 ∧ out = stored ++ tailDots machine last) := by
  rw [readFields] at read
  split_ifs at read with hex large _ empty full
  next =>
    cases read
    exact ⟨rfl, .inl ⟨empty, rfl⟩⟩
  next =>
    cases read
    exact ⟨rfl, .inr (.inl ⟨⟨empty, hex, Nat.le_of_not_gt large⟩, Nat.le_of_not_gt full, rfl⟩)⟩
  next =>
    obtain ⟨fits, valid, bytes, same⟩ := readTail_ok read
    exact ⟨same, .inr (.inr ⟨valid, fits, bytes⟩)⟩

theorem readFields_cons_ok {field next : Text} {rest : List Text} {stored : List UInt8} {colonp : Option Nat}
    {result : List UInt8 × Option Nat}
    (read : readFields machine true (field :: next :: rest) stored colonp = .ok result) :
    field = [] ∧ colonp = none ∧ readFields machine true (next :: rest) stored (some stored.length) = .ok result ∨
      IsGroup field ∧ ¬ (next = [] ∧ rest = []) ∧ stored.length + 2 ≤ 16 ∧
        readFields machine true (next :: rest) (stored ++ groupBytes (hexFold 0 field)) colonp = .ok result := by
  rw [readFields] at read
  split_ifs at read with empty found hex large last full
  next => exact .inl ⟨empty, by simpa using found, read⟩
  next => exact .inr ⟨⟨empty, hex, Nat.le_of_not_gt large⟩, last, Nat.le_of_not_gt full, read⟩
  next => exact absurd read readTail_colon

theorem form_of_readFields {list : List Text} {stored out : List UInt8} {colonp place : Option Nat}
    (room : stored.length ≤ 16) (read : readFields machine true list stored colonp = .ok (out, place)) :
    (∃ after tail, list = Ip6Form.ends (after ++ tail.toList) ∧ Ends stored after tail ∧
      out = stored ++ endBytes machine after tail ∧ place = colonp) ∨
    (colonp = none ∧ ∃ before after tail, list = before ++ [] :: Ip6Form.ends (after ++ tail.toList) ∧
      (∀ group ∈ before, IsGroup group) ∧ Ends (stored ++ groupsBytes before) after tail ∧
      out = stored ++ groupsBytes before ++ endBytes machine after tail ∧
      place = some (stored ++ groupsBytes before).length) := by
  have noGroup : ∀ group : Text, group ∈ [] → IsGroup group := fun group member => absurd member List.not_mem_nil
  have noTail : ∀ text : Text, text ∈ [] → isValidIpString text = true :=
    fun text member => absurd member List.not_mem_nil
  induction list generalizing stored colonp with
  | nil =>
    rw [readFields] at read
    cases read
  | cons field rest ih =>
    cases rest with
    | nil =>
      obtain ⟨same, kind⟩ := readFields_last_ok read
      apply Or.inl
      rcases kind with ⟨empty, bytes⟩ | ⟨proper, fits, bytes⟩ | ⟨valid, fits, bytes⟩
      next =>
        have ends : Ends stored [] none := ⟨noGroup, noTail, room⟩
        exact ⟨[], none, by rw [empty]; rfl, ends, by simp [bytes, endBytes, groupsBytes], same⟩
      next =>
        have ends : Ends stored [field] none := ⟨List.forall_mem_singleton.mpr proper, noTail, fits⟩
        exact ⟨[field], none, rfl, ends, by simp [bytes, endBytes, groupsBytes], same⟩
      next =>
        have ends : Ends stored [] (some field) := ⟨noGroup, List.forall_mem_singleton.mpr valid, fits⟩
        exact ⟨[], some field, rfl, ends, by simp [bytes, endBytes, groupsBytes], same⟩
    | cons next more =>
      cases readFields_cons_ok read with
      | inl gap =>
        obtain ⟨empty, first, later⟩ := gap
        cases ih room later with
        | inr again => exact absurd again.1 (Option.some_ne_none _)
        | inl found =>
          obtain ⟨after, tail, same, ends, bytes, place⟩ := found
          have nothing : stored ++ groupsBytes [] = stored := by rw [groupsBytes, List.flatMap_nil, List.append_nil]
          apply Or.inr
          refine ⟨first, [], after, tail, ?_, noGroup, ?_, ?_, ?_⟩
          next => rw [empty, same, List.nil_append]
          next => rwa [nothing]
          next => rwa [nothing]
          next => rwa [nothing]
      | inr group =>
        obtain ⟨proper, goes, fits, later⟩ := group
        have two : (stored ++ groupBytes (hexFold 0 field)).length = stored.length + 2 := List.length_append
        cases ih (by omega) later with
        | inl found =>
          obtain ⟨after, tail, same, ends, bytes, place⟩ := found
          have some : after ++ tail.toList ≠ [] := by
            intro nothing
            rw [nothing, Ip6Form.ends, if_pos rfl] at same
            exact goes (List.cons.inj same)
          have list : field :: next :: more = Ip6Form.ends (field :: after ++ tail.toList) := by
            rw [same, List.cons_append, Ip6Form.ends, if_neg some, Ip6Form.ends, if_neg (List.cons_ne_nil _ _)]
          exact .inl ⟨field :: after, tail, list, ends.cons proper,
            by rw [bytes, endBytes_cons, List.append_assoc], place⟩
        | inr found =>
          obtain ⟨first, before, after, tail, same, groups, ends, bytes, place⟩ := found
          have joined : stored ++ groupBytes (hexFold 0 field) ++ groupsBytes before =
              stored ++ groupsBytes (field :: before) := by
            rw [groupsBytes_cons, List.append_assoc]
          rw [joined] at ends bytes place
          apply Or.inr
          exact ⟨first, field :: before, after, tail, by rw [same, List.cons_append],
            List.forall_mem_cons.mpr ⟨proper, groups⟩, ends, bytes, place⟩

end Fields

section Places

variable {machine : Machine}

theorem ip6Place_form {stored : List UInt8} {count : Nat} (size : stored.length = 2 * count) {after : List Text}
    {tail : Option Text} (room : count + (after.length + 2 * tail.toList.length) ≤ 7) :
    ip6Place (stored ++ endBytes machine after tail) (some stored.length) =
      .ok (stored ++ List.replicate (16 - 2 * (count + (after.length + 2 * tail.toList.length))) 0 ++
        endBytes machine after tail) := by
  have behind := length_endBytes machine after tail
  rw [ip6Place_gap (by omega), behind, size, ← Nat.mul_add]

theorem ip6Place_full {bytes : List UInt8} (full : bytes.length = 16) (colonp : Nat) :
    ip6Place bytes (some colonp) = .error .rejected := by
  rw [ip6Place]
  dsimp only
  rw [if_pos full]

theorem ip6Scan_fields (machine : Machine) {list : List Text} (nonempty : list ≠ [])
    (free : ∀ field ∈ list, ':' ∉ field)
    (terminated : Bool) :
    ip6Scan machine terminated (joinTokens ':' list) =
      readFields machine terminated list [] none >>= fun result => ip6Place result.1 result.2 := by
  rw [ip6Scan]
  exact ip6Loop_fields nonempty free [] none

theorem parseIp6Address_fields {text : Text} (head : text.head? ≠ some ':') :
    parseIp6Address machine text =
      readFields machine true (fields ':' text) [] none >>= fun result => ip6Place result.1 result.2 := by
  have scan := ip6Scan_fields machine (fields_ne_nil ':' text) (not_mem_fields ':' text) true
  rw [joinTokens_fields] at scan
  rw [parseIp6Address_plain head, scan]

theorem readFields_zero (terminated : Bool) {list : List Text} (nonempty : list ≠ []) :
    readFields machine terminated (['0'] :: [] :: list) [] none =
      readFields machine terminated list [0, 0] (some 2) := by
  have hex : AllHex ['0'] := List.forall_mem_singleton.mpr rfl
  have zero : groupBytes (hexFold 0 ['0']) = [0, 0] := rfl
  cases list with
  | nil => exact absurd rfl nonempty
  | cons next rest =>
    rw [readFields, if_neg (List.cons_ne_nil _ _), if_pos hex, if_neg (by decide),
      if_neg (fun both => List.cons_ne_nil _ _ both.2), if_neg (by decide), readFields, if_pos rfl,
      if_neg (by decide), zero]
    rfl

theorem parseIp6Address_leading {behind : Text} (nonempty : behind ≠ []) :
    parseIp6Address machine ([':', ':'] ++ behind) =
      if behind.length > 125 then .error .rejected
      else readFields machine (behind.length < 125) (fields ':' behind) [0, 0] (some 2) >>= fun result =>
        ip6Place result.1 result.2 := by
  have some : fields ':' behind ≠ [] := fields_ne_nil ':' behind
  have whole : joinTokens ':' (['0'] :: [] :: fields ':' behind) = '0' :: ([':', ':'] ++ behind) := by
    rw [joinTokens, Ip6Form.joinTokens_cons ':' [] some, joinTokens_fields]
    rfl
  have free : ∀ field ∈ ['0'] :: [] :: fields ':' behind, ':' ∉ field := by
    rw [List.forall_mem_cons, List.forall_mem_cons]
    exact ⟨by decide, List.not_mem_nil, not_mem_fields ':' behind⟩
  have begins : strstr [':', ':'] ([':', ':'] ++ behind) = .some ([':', ':'] ++ behind) :=
    (strstr_self (List.cons_ne_nil _ _)).mpr ⟨behind, rfl⟩
  have more : [':', ':'] ++ behind ≠ [':', ':'] := by simpa using nonempty
  have size : ([':', ':'] ++ behind).length = behind.length + 2 := by simp
  have long : ([':', ':'] ++ behind).length > 127 ↔ behind.length > 125 := by omega
  have short : ([':', ':'] ++ behind).length < 127 ↔ behind.length < 125 := by omega
  have scan := ip6Scan_fields machine (List.cons_ne_nil _ _) free (behind.length < 125)
  rw [whole, readFields_zero _ some] at scan
  rw [parseIp6Address, if_neg more, if_neg (fun both => both.2 rfl), if_pos begins]
  simp only [long, short, scan]

theorem parseIp6Address_ends {after : List Text} {tail : Option Text} (ends : Ends [0, 0] after tail)
    (written : after ++ tail.toList ≠ []) (short : (joinTokens ':' (after ++ tail.toList)).length < 125) :
    parseIp6Address machine ([':', ':'] ++ joinTokens ':' (after ++ tail.toList)) =
      ip6Place ([0, 0] ++ endBytes machine after tail) (some 2) := by
  have split : fields ':' (joinTokens ':' (after ++ tail.toList)) = after ++ tail.toList :=
    fields_joinTokens ':' written fun piece member => (ends.pieces piece member).2
  have behind : joinTokens ':' (after ++ tail.toList) ≠ [] := by
    intro empty
    rw [empty] at split
    exact (ends.pieces [] (by rw [← split]; exact List.mem_singleton_self [])).1 rfl
  have whole : after ++ tail.toList = Ip6Form.ends (after ++ tail.toList) := by rw [Ip6Form.ends, if_neg written]
  have read : readFields machine true _ [0, 0] (some 2) = _ := readFields_ends ends (some 2)
  rw [← whole] at read
  rw [parseIp6Address_leading behind, if_neg (by omega), decide_eq_true short, split, read]
  rfl

end Places

section Forms

variable {machine : Machine}

theorem fields_colon {text : Text} (colon : text.head? = some ':') : ∃ rest, fields ':' text = [] :: rest := by
  cases text with
  | nil => cases colon
  | cons c rest =>
    have same : c = ':' := Option.some.inj colon
    exact ⟨fields ':' rest, by rw [fields, if_pos same]⟩

theorem readFields_gap {terminated : Bool} {list : List Text} (nonempty : list ≠ []) (stored : List UInt8) :
    readFields machine terminated ([] :: list) stored none =
      readFields machine terminated list stored (some stored.length) := by
  cases list with
  | nil => exact absurd rfl nonempty
  | cons next rest => rw [readFields, if_pos rfl, if_neg (by decide)]

namespace Ip6Form

theorem Loose.ends {form : Ip6Form} (loose : form.Loose) (stored : List UInt8)
    (room : stored.length + 2 * (form.after.length + 2 * form.tail.toList.length) ≤ 16) :
    Ends stored form.after form.tail :=
  ⟨fun group member => loose.groups group (List.mem_append_right _ member), loose.tail, room⟩

theorem units_none {form : Ip6Form} (kind : form.before = none) :
    form.units = form.after.length + 2 * form.tail.toList.length := by
  rw [units, groups, kind, Option.getD_none, List.nil_append]

theorem units_some {form : Ip6Form} {before : List Text} (kind : form.before = some before) :
    form.units = before.length + (form.after.length + 2 * form.tail.toList.length) := by
  rw [units, groups, kind, Option.getD_some, List.length_append, Nat.add_assoc]

theorem bytes_none (machine : Machine) {form : Ip6Form} (kind : form.before = none) (full : form.units = 8) :
    form.bytes (tailDots machine) = endBytes machine form.after form.tail := by
  rw [bytes, kind, full]
  rfl

theorem bytes_some (machine : Machine) {form : Ip6Form} {before : List Text} (kind : form.before = some before) :
    form.bytes (tailDots machine) =
      groupsBytes before ++ List.replicate (16 - 2 * form.units) 0 ++ endBytes machine form.after form.tail := by
  rw [bytes, kind]
  rfl

theorem Loose.read_full {form : Ip6Form} (loose : form.Loose) (kind : form.before = none) :
    parseIp6Address machine form.text = .ok (form.bytes (tailDots machine)) := by
  have full := loose.full kind
  have units := units_none kind
  have ends := loose.ends [] (by rw [List.length_nil]; omega)
  have size := length_endBytes machine form.after form.tail
  have parts : form.parts = Ip6Form.ends form.pieces := by rw [parts, kind]
  have written : form.pieces ≠ [] := by
    intro nothing
    have none := List.append_eq_nil_iff.mp nothing
    rw [none.1, none.2] at units
    rw [units] at full
    exact absurd full (by decide)
  have head : form.text.head? ≠ some ':' := by
    intro colon
    obtain ⟨rest, first⟩ := fields_colon colon
    rw [loose.fields_text, parts, Ip6Form.ends, if_neg written] at first
    exact (ends.pieces [] (by rw [← pieces, first]; exact List.mem_cons_self)).1 rfl
  have placed : ip6Place ([] ++ endBytes machine form.after form.tail) none =
      .ok (endBytes machine form.after form.tail) :=
    if_neg (by rw [List.nil_append]; omega)
  rw [parseIp6Address_fields head, loose.fields_text, parts, pieces, readFields_ends ends, bytes_none machine kind full]
  exact placed

theorem Loose.read_gap {form : Ip6Form} (loose : form.Loose) {first : Text} {others : List Text}
    (kind : form.before = some (first :: others)) :
    parseIp6Address machine form.text = .ok (form.bytes (tailDots machine)) := by
  have gap := loose.gap (by rw [kind]; exact Option.some_ne_none _)
  have units := units_some kind
  have front : ∀ group ∈ first :: others, IsGroup group := by
    intro group member
    apply loose.groups
    rw [Ip6Form.groups, kind]
    exact List.mem_append_left _ member
  have size := length_groupsBytes (first :: others)
  have ends := loose.ends (groupsBytes (first :: others)) (by omega)
  have parts : form.parts = (first :: others) ++ [] :: Ip6Form.ends form.pieces := by rw [parts, kind]
  have head : form.text.head? ≠ some ':' := by
    intro colon
    obtain ⟨rest, empty⟩ := fields_colon colon
    rw [loose.fields_text, parts, List.cons_append] at empty
    exact (front first List.mem_cons_self).nonempty (List.cons.inj empty).1
  have some : Ip6Form.ends form.pieces ≠ [] := ends_ne_nil form.pieces
  have room : ([] : List UInt8).length + 2 * (first :: others).length ≤ 16 := by rw [List.length_nil]; omega
  rw [parseIp6Address_fields head, loose.fields_text, parts, readFields_groups front (fun both => some both.2) room,
    List.nil_append, readFields_gap some, pieces, readFields_ends ends, bytes_some machine kind, units]
  exact ip6Place_form size (by omega)

theorem Loose.read_leading {form : Ip6Form} (loose : form.Loose) (kind : form.before = some []) :
    parseIp6Address machine form.text = .ok (form.bytes (tailDots machine)) := by
  obtain ⟨few, short⟩ := loose.leading kind
  have units := units_some kind
  have text : form.text = [':', ':'] ++ joinTokens ':' form.pieces := by rw [text, kind]; rfl
  by_cases none : form.pieces = []
  next =>
    have both := List.append_eq_nil_iff.mp none
    rw [text, none, bytes_some machine kind, units, endBytes, both.1, both.2]
    rfl
  next =>
    have ends := loose.ends [0, 0] (by rw [List.length_cons, List.length_singleton]; omega)
    have size : (joinTokens ':' form.pieces).length + 2 = form.text.length := by
      rw [text, List.length_append, Nat.add_comm]
      rfl
    have zeros : 16 - 2 * form.units = 16 - 2 * (1 + (form.after.length + 2 * form.tail.toList.length)) + 1 + 1 := by
      rw [units, List.length_nil]
      omega
    have placed : ip6Place ([0, 0] ++ endBytes machine form.after form.tail) (some 2) = _ :=
      ip6Place_form (show [0, 0].length = 2 * 1 from rfl) (by omega)
    rw [text, pieces, parseIp6Address_ends ends none (by rw [← pieces]; omega), bytes_some machine kind, zeros,
      List.replicate_succ, List.replicate_succ]
    exact placed

theorem Loose.read {form : Ip6Form} (loose : form.Loose) :
    parseIp6Address machine form.text = .ok (form.bytes (tailDots machine)) := by
  cases kind : form.before with
  | none => exact loose.read_full kind
  | some before =>
    cases before with
    | nil => exact loose.read_leading kind
    | cons first others => exact loose.read_gap kind

theorem text_none {form : Ip6Form} (kind : form.before = none) : form.text = joinTokens ':' form.pieces := by
  rw [text, kind]

theorem text_some {form : Ip6Form} {before : List Text} (kind : form.before = some before) :
    form.text = joinTokens ':' before ++ ([':', ':'] ++ joinTokens ':' form.pieces) := by
  rw [text, kind]

end Ip6Form

theorem ip6Place_some_ok {bytes out : List UInt8} {colonp : Nat} (placed : ip6Place bytes (some colonp) = .ok out) :
    bytes.length ≠ 16 := by
  intro full
  rw [ip6Place_full full] at placed
  cases placed

theorem readFields_unterminated {list : List Text} {stored : List UInt8} {colonp : Option Nat}
    {result : List UInt8 × Option Nat} : readFields machine false list stored colonp ≠ .ok result := by
  intro read
  induction list generalizing stored colonp with
  | nil =>
    rw [readFields] at read
    cases read
  | cons field rest ih =>
    cases rest with
    | nil =>
      rw [readFields, readTail] at read
      simp only [Bool.not_false, if_true] at read
      split_ifs at read
    | cons next more =>
      rw [readFields, readTail] at read
      simp only [Bool.not_false, if_true] at read
      split_ifs at read
      next => exact ih read
      next => exact ih read

theorem form_of_plain {text : Text} (head : text.head? ≠ some ':') {bytes : List UInt8}
    (parsed : parseIp6Address machine text = .ok bytes) : ∃ form : Ip6Form, form.Loose ∧ form.text = text := by
  have whole := joinTokens_fields ':' text
  rw [parseIp6Address_fields head] at parsed
  obtain ⟨⟨out, place⟩, read, placed⟩ := bind_eq_ok parsed
  change ip6Place out place = .ok bytes at placed
  cases form_of_readFields (by decide) read with
  | inl found =>
    obtain ⟨after, tail, same, ends, stored, first⟩ := found
    have size := length_endBytes machine after tail
    rw [first, stored, List.nil_append, ip6Place] at placed
    split at placed
    next => cases placed
    next full =>
      have eight : after.length + 2 * tail.toList.length = 8 := by omega
      refine ⟨⟨none, after, tail⟩, ⟨ends.groups, ends.valid, ?_, ?_, ?_⟩, ?_⟩
      next => intro _; rw [Ip6Form.units_none rfl]; exact eight
      next => intro other; exact absurd rfl other
      next => intro other; cases other
      next => rw [Ip6Form.text_none rfl, Ip6Form.pieces, ← Ip6Form.joinTokens_ends, ← same, whole]
  | inr found =>
    obtain ⟨_, before, after, tail, same, groups, ends, stored, gap⟩ := found
    cases before with
    | nil =>
      rw [same, List.nil_append, Ip6Form.joinTokens_cons ':' [] (Ip6Form.ends_ne_nil _), List.nil_append] at whole
      rw [← whole] at head
      exact absurd rfl head
    | cons group others =>
      have size := length_endBytes machine after tail
      have front := length_groupsBytes (group :: others)
      have room := ends.room
      rw [gap, stored] at placed
      have notFull := ip6Place_some_ok placed
      rw [List.nil_append] at room notFull
      rw [List.length_append] at notFull
      have units : (⟨some (group :: others), after, tail⟩ : Ip6Form).units =
          (group :: others).length + (after.length + 2 * tail.toList.length) := Ip6Form.units_some rfl
      refine ⟨⟨some (group :: others), after, tail⟩, ⟨?_, ends.valid, ?_, ?_, ?_⟩, ?_⟩
      next =>
        intro part member
        cases List.mem_append.mp member with
        | inl here => exact groups part here
        | inr here => exact ends.groups part here
      next => intro other; cases other
      next => intro _; omega
      next => intro other; cases other
      next => rw [Ip6Form.text_eq, ← whole, same]; rfl

theorem form_of_leading {behind : Text} (nonempty : behind ≠ []) {bytes : List UInt8}
    (parsed : parseIp6Address machine ([':', ':'] ++ behind) = .ok bytes) :
    ∃ form : Ip6Form, form.Loose ∧ form.text = [':', ':'] ++ behind := by
  have whole := joinTokens_fields ':' behind
  rw [parseIp6Address_leading nonempty] at parsed
  split at parsed
  next => cases parsed
  next fits =>
    obtain ⟨⟨out, place⟩, read, placed⟩ := bind_eq_ok parsed
    change ip6Place out place = .ok bytes at placed
    by_cases terminated : behind.length < 125
    next =>
      rw [decide_eq_true terminated] at read
      cases form_of_readFields (by decide) read with
      | inr found => cases found.1
      | inl found =>
        obtain ⟨after, tail, same, ends, stored, gap⟩ := found
        have size := length_endBytes machine after tail
        have room := ends.room
        rw [gap, stored] at placed
        have notFull := ip6Place_some_ok placed
        rw [List.length_append] at notFull
        have two : ([0, 0] : List UInt8).length = 2 := rfl
        have six : after.length + 2 * tail.toList.length ≤ 6 := by omega
        have text : (⟨some [], after, tail⟩ : Ip6Form).text = [':', ':'] ++ behind := by
          change [] ++ ([':', ':'] ++ joinTokens ':' (after ++ tail.toList)) = _
          rw [← Ip6Form.joinTokens_ends, ← same, whole, List.nil_append]
        have units : (⟨some [], after, tail⟩ : Ip6Form).units = after.length + 2 * tail.toList.length := by
          rw [Ip6Form.units_some rfl, List.length_nil, Nat.zero_add]
        refine ⟨⟨some [], after, tail⟩, ⟨ends.groups, ends.valid, ?_, ?_, ?_⟩, text⟩
        next => intro other; cases other
        next => intro _; omega
        next =>
          intro _
          rw [text, List.length_append]
          change _ ∧ 2 + behind.length ≤ 126
          omega
    next =>
      rw [decide_eq_false terminated] at read
      exact absurd read readFields_unterminated

theorem form_of_parse {text : Text} {bytes : List UInt8} (parsed : parseIp6Address machine text = .ok bytes) :
    ∃ form : Ip6Form, form.Loose ∧ form.text = text := by
  by_cases head : text.head? = some ':'
  next =>
    obtain ⟨rest, first⟩ := List.head?_eq_some_iff.mp head
    by_cases second : rest.head? = some ':'
    next =>
      obtain ⟨behind, more⟩ := List.head?_eq_some_iff.mp second
      have whole : text = [':', ':'] ++ behind := by rw [first, more]; rfl
      by_cases empty : behind = []
      next =>
        have absent {part : Text} {P : Prop} (member : part ∈ []) : P := absurd member List.not_mem_nil
        refine ⟨⟨some [], [], none⟩, ⟨?_, ?_, ?_, ?_, ?_⟩, by rw [whole, empty]; rfl⟩
        next => exact fun group member => absent member
        next => exact fun tail member => absent member
        next => intro other; cases other
        next => exact fun _ => by decide
        next => exact fun _ => by decide
      next =>
        rw [whole] at parsed ⊢
        exact form_of_leading empty parsed
    next =>
      have whole : text ≠ [':', ':'] := by
        rintro rfl
        exact second (by rw [← (List.cons.inj first).2]; rfl)
      rw [parseIp6Address, if_neg whole, if_pos ⟨head, by rwa [first]⟩] at parsed
      cases parsed
  next => exact form_of_plain head parsed

end Forms

section Overruns

variable {machine : Machine}

theorem ip6Place_inside (bytes : List UInt8) (colonp : Option Nat) : ip6Place bytes colonp ≠ .error .outside := by
  intro placed
  cases colonp with
  | none =>
    rw [ip6Place] at placed
    split at placed
    next => cases placed
    next => cases placed
  | some colonp =>
    rw [ip6Place] at placed
    dsimp only at placed
    split at placed
    next => cases placed
    next => cases placed

theorem readFields_inside {list : List Text} {stored : List UInt8} {colonp : Option Nat} :
    readFields machine true list stored colonp ≠ .error .outside := by
  intro read
  induction list generalizing stored colonp with
  | nil =>
    rw [readFields] at read
    cases read
  | cons field rest ih =>
    cases rest with
    | nil =>
      rw [readFields, readTail] at read
      simp only [Bool.not_true, Bool.false_eq_true, if_false] at read
      split_ifs at read <;> cases read
    | cons next more =>
      rw [readFields, readTail] at read
      simp only [Bool.not_true, Bool.false_eq_true, if_false, if_true] at read
      split_ifs at read
      next => cases read
      next => exact ih read
      next => cases read
      next => cases read
      next => cases read
      next => exact ih read
      next => cases read
      next => cases read

structure ReadsToEnd (stored : Nat) (list groups rest : List Text) : Prop where
  split : list = groups ++ rest
  proper : ∀ group ∈ groups, IsGroup group
  stops : (rest = [] ∨ rest = [[]]) ∧ stored + 2 * groups.length ≤ 18 ∨
    (∃ field ∈ rest.head?, IsDotted field) ∧ stored + 2 * groups.length ≤ 12

theorem IsDotted.mixed {field : Text} (dotted : IsDotted field) : ¬ AllHex field := by
  intro hex
  have none : field.dropWhile isHexAlphaOrDigit = [] := List.dropWhile_eq_nil_iff.mpr hex
  have first := dotted.1
  rw [none] at first
  cases first

theorem ReadsToEnd.first {stored : Nat} {field : Text} {list groups rest : List Text}
    (reads : ReadsToEnd stored (field :: list) groups rest) :
    IsGroup field ∧ (∃ others, ReadsToEnd (stored + 2) list others rest) ∨ field = [] ∧ list = [] ∨
      IsDotted field ∧ stored ≤ 12 := by
  obtain ⟨split, proper, stops⟩ := reads
  cases groups with
  | nil =>
    rw [List.nil_append] at split
    apply Or.inr
    rw [← split] at stops
    cases stops with
    | inl last =>
      cases last.1 with
      | inl none => cases none
      | inr one => exact .inl (List.cons.inj one)
    | inr dotted =>
      obtain ⟨⟨first, same, kind⟩, room⟩ := dotted
      rw [← Option.some.inj same] at kind
      exact .inr ⟨kind, room⟩
  | cons group others =>
    obtain ⟨same, behind⟩ := List.cons.inj split
    rw [List.forall_mem_cons] at proper
    rw [List.length_cons] at stops
    refine .inl ⟨by rw [same]; exact proper.1, others, behind, proper.2, ?_⟩
    cases stops with
    | inl last => exact .inl ⟨last.1, by omega⟩
    | inr dotted => exact .inr ⟨dotted.1, by omega⟩

theorem readTail_outside {field : Text} (mixed : ¬ AllHex field) (list : List Text) (curtok : Text)
    (stored : List UInt8)
    (colonp : Option Nat) :
    readTail machine false field curtok stored colonp = .error .outside ↔
      ∃ groups rest, ReadsToEnd stored.length (field :: list) groups rest := by
  rw [readTail]
  split
  next both =>
    apply iff_of_true rfl
    exact ⟨[], field :: list, rfl, fun group member => absurd member List.not_mem_nil,
      .inr ⟨⟨field, rfl, both.1⟩, by rw [List.length_nil]; omega⟩⟩
  next neither =>
    apply iff_of_false (by decide)
    rintro ⟨groups, rest, reads⟩
    rcases reads.first with ⟨group, _⟩ | ⟨empty, _⟩ | ⟨dotted, fits⟩
    next => exact mixed group.hex
    next => exact mixed (by rw [empty]; exact fun c member => absurd member List.not_mem_nil)
    next => exact neither ⟨dotted, by omega⟩

theorem readFields_outside {list : List Text} (nonempty : list ≠ []) {stored : List UInt8} (room : stored.length ≤ 16)
    {colonp : Option Nat} (found : colonp ≠ none) :
    readFields machine false list stored colonp = .error .outside ↔
      ∃ groups rest, ReadsToEnd stored.length list groups rest := by
  induction list generalizing stored with
  | nil => exact absurd rfl nonempty
  | cons field list ih =>
    -- a field of digits that is too large
    have large (hex : AllHex field) (value : hexFold 0 field > 0xFFFF) :
        ¬ ∃ groups rest, ReadsToEnd stored.length (field :: list) groups rest := by
      rintro ⟨groups, rest, reads⟩
      rcases reads.first with ⟨group, _⟩ | ⟨empty, _⟩ | ⟨dotted, _⟩
      next => exact absurd group.small (Nat.not_le.mpr value)
      next => rw [empty] at value; exact absurd value (by decide)
      next => exact dotted.mixed hex
    cases list with
    | nil =>
      rw [readFields]
      simp only [Bool.not_false, if_true]
      split_ifs with hex value
      next => exact iff_of_false (by decide) (large hex value)
      next =>
        apply iff_of_true rfl
        by_cases empty : field = []
        next =>
          exact ⟨[], [field], rfl, fun group member => absurd member List.not_mem_nil,
            .inl ⟨.inr (by rw [empty]), by rw [List.length_nil]; omega⟩⟩
        next =>
          exact ⟨[field], [], rfl, List.forall_mem_singleton.mpr ⟨empty, hex, Nat.le_of_not_gt value⟩,
            .inl ⟨.inl rfl, by rw [List.length_singleton]; omega⟩⟩
      next => exact readTail_outside hex [] field stored colonp
    | cons next more =>
      have isSome := Option.isSome_iff_ne_none.mpr found
      rw [readFields]
      simp only [isSome, if_true, Bool.false_eq_true, if_false]
      split_ifs with empty hex value last full
      next =>
        apply iff_of_false (by decide)
        rintro ⟨groups, rest, reads⟩
        rcases reads.first with ⟨group, _⟩ | ⟨_, nothing⟩ | ⟨dotted, _⟩
        next => exact group.nonempty empty
        next => cases nothing
        next =>
          rw [empty] at dotted
          cases dotted.1
      next => exact iff_of_false (by decide) (large hex value)
      next =>
        apply iff_of_true rfl
        exact ⟨[field], next :: more, rfl, List.forall_mem_singleton.mpr ⟨empty, hex, Nat.le_of_not_gt value⟩,
          .inl ⟨.inr (by rw [last.1, last.2]), by rw [List.length_singleton]; omega⟩⟩
      next =>
        apply iff_of_false (by decide)
        rintro ⟨groups, rest, reads⟩
        rcases reads.first with ⟨_, others, behind⟩ | ⟨_, nothing⟩ | ⟨dotted, _⟩
        next =>
          obtain ⟨split, _, stops⟩ := behind
          cases stops with
          | inr inside => omega
          | inl ending =>
            have none : others = [] := List.eq_nil_of_length_eq_zero (by omega)
            rw [none, List.nil_append] at split
            rw [← split] at ending
            cases ending.1 with
            | inl nothing => cases nothing
            | inr one => exact last (List.cons.inj one)
        next => cases nothing
        next => exact dotted.mixed hex
      next =>
        have proper : IsGroup field := ⟨empty, hex, Nat.le_of_not_gt value⟩
        have two : (stored ++ groupBytes (hexFold 0 field)).length = stored.length + 2 := List.length_append
        rw [ih (List.cons_ne_nil _ _) (by omega), two]
        constructor
        next =>
          rintro ⟨groups, rest, reads⟩
          have stops := reads.stops
          refine ⟨field :: groups, rest, by rw [reads.split]; rfl, List.forall_mem_cons.mpr ⟨proper, reads.proper⟩, ?_⟩
          rw [List.length_cons]
          cases stops with
          | inl ending => exact .inl ⟨ending.1, by omega⟩
          | inr inside => exact .inr ⟨inside.1, by omega⟩
        next =>
          rintro ⟨groups, rest, reads⟩
          rcases reads.first with ⟨_, others, behind⟩ | ⟨_, nothing⟩ | ⟨dotted, _⟩
          next => exact ⟨others, rest, behind⟩
          next => cases nothing
          next => exact absurd hex dotted.mixed
      next => exact readTail_outside hex (next :: more) _ stored colonp

/-- A text of 127 characters that the parser reads on behind its end: it begins with "::", and nothing that
follows stops the loop before. -/
def Overruns (text : Text) : Prop :=
  text.length = 127 ∧ ∃ behind groups rest, text = [':', ':'] ++ behind ∧ ReadsToEnd 2 (fields ':' behind) groups rest

theorem place_inside (machine : Machine) (list : List Text) (stored : List UInt8) (colonp : Option Nat) :
    (readFields machine true list stored colonp >>= fun result => ip6Place result.1 result.2) ≠ .error .outside := by
  cases read : readFields machine true list stored colonp with
  | error failure =>
    intro failed
    have same : failure = .outside := Except.error.inj failed
    rw [same] at read
    exact readFields_inside read
  | ok result => exact ip6Place_inside result.1 result.2

theorem parseIp6Address_outside (text : Text) : parseIp6Address machine text = .error .outside ↔ Overruns text := by
  by_cases begins : ∃ behind, text = [':', ':'] ++ behind
  next =>
    obtain ⟨behind, whole⟩ := begins
    have size : text.length = behind.length + 2 := by rw [whole]; simp
    by_cases empty : behind = []
    next =>
      rw [empty, List.append_nil] at whole
      apply iff_of_false
      next =>
        rw [whole, parseIp6Address, if_pos rfl]
        exact fun impossible => by cases impossible
      next =>
        intro overruns
        rw [whole] at overruns
        exact absurd overruns.1 (by decide)
    next =>
      have lists : Overruns text ↔
          behind.length = 125 ∧ ∃ groups rest, ReadsToEnd 2 (fields ':' behind) groups rest := by
        constructor
        next =>
          rintro ⟨full, other, groups, rest, same, reads⟩
          have equal : behind = other := List.append_cancel_left (whole.symm.trans same)
          rw [equal] at size ⊢
          exact ⟨by omega, groups, rest, reads⟩
        next => rintro ⟨full, groups, rest, reads⟩; exact ⟨by omega, behind, groups, rest, whole, reads⟩
      rw [lists, whole, parseIp6Address_leading empty]
      by_cases full : behind.length = 125
      next =>
        have outside : readFields machine false (fields ':' behind) [0, 0] (some 2) = .error .outside ↔
            ∃ groups rest, ReadsToEnd 2 (fields ':' behind) groups rest :=
          readFields_outside (fields_ne_nil ':' behind) (by decide) (Option.some_ne_none 2)
        rw [if_neg (by omega), decide_eq_false (by omega), ← outside]
        cases read : readFields machine false (fields ':' behind) [0, 0] (some 2) with
        | ok result => exact absurd read readFields_unterminated
        | error failure =>
          change Except.error failure = _ ↔ _
          constructor
          next => intro failed; exact ⟨full, by rw [Except.error.inj failed]⟩
          next => intro both; rw [Except.error.inj both.2]
      next =>
        apply iff_of_false
        next =>
          split
          next => exact fun impossible => by cases impossible
          next =>
            rw [decide_eq_true (by omega)]
            exact place_inside machine _ _ _
        next => exact fun both => full both.1
  next =>
    apply iff_of_false
    next =>
      have whole : text ≠ [':', ':'] := fun same => begins ⟨[], same⟩
      have scan := ip6Scan_fields machine (fields_ne_nil ':' text) (not_mem_fields ':' text) true
      rw [joinTokens_fields] at scan
      rw [parseIp6Address, if_neg whole,
        if_neg (fun found => begins ((strstr_self (List.cons_ne_nil _ _)).mp found)), scan]
      split
      next => exact fun impossible => by cases impossible
      next => exact place_inside machine _ _ _
    next => rintro ⟨_, behind, _, _, same, _⟩; exact begins ⟨behind, same⟩

end Overruns

section Exactness

variable (machine : Machine)

def DenotesIp6 (text : Text) (bytes : List UInt8) : Prop :=
  ∃ form : Ip6Form, form.Proper ∧ form.text = text ∧ form.bytes quadBytes = bytes

structure Ip6Exact (text : Text) : Prop where
  inside : parseIp6Address machine text ≠ .error .outside
  exact : ∀ bytes, parseIp6Address machine text = .ok bytes ↔ DenotesIp6 text bytes

inductive Ip6Defect (text : Text) : Prop
  -- the zero in front of a leading "::" leaves room for six groups
  | spareGap (form : Ip6Form) (same : form.text = text) (proper : form.Proper) (leading : form.before = some [])
      (seven : form.units = 7)
  | longGroup (form : Ip6Form) (same : form.text = text) (loose : form.Loose) (group : Text)
      (member : group ∈ form.groups)
      (long : 4 < group.length)
  | mergedTail (form : Ip6Form) (same : form.text = text) (loose : form.Loose) (tail : Text)
      (member : tail ∈ form.tail.toList) (empty : [] ∈ fields '.' tail)
  | octalTail (form : Ip6Form) (same : form.text = text) (loose : form.Loose) (tail : Text)
      (member : tail ∈ form.tail.toList) (number : Text) (inside : number ∈ fields '.' tail) (octal : OctalRead number)
  | overrun (overruns : Overruns text)

variable {machine}

namespace Ip6Form

theorem Proper.tails {form : Ip6Form} (proper : form.Proper) :
    ∀ tail ∈ form.tail.toList, isValidIpString tail = true := by
  intro tail member
  have quad := proper.tail tail member
  exact (isValidIpString_whole fun empty => quad.nonempty [] empty rfl).mpr quad

theorem Proper.short {form : Ip6Form} (proper : form.Proper) (kind : form.before = some []) :
    (joinTokens ':' form.pieces).length < 125 := by
  have most := proper.gap (by rw [kind]; exact Option.some_ne_none _)
  have units := units_some kind
  have pieces : ∀ piece ∈ form.pieces, piece.length < 16 := by
    intro piece member
    cases List.mem_append.mp member with
    | inl group =>
      have four := (proper.groups piece (List.mem_append_right _ group)).short
      omega
    | inr tail => exact length_dottedQuad (proper.tail piece tail)
  have joined := length_joinTokens_le ':' pieces
  have count : form.pieces.length = form.after.length + form.tail.toList.length := List.length_append
  omega

theorem Proper.loose {form : Ip6Form} (proper : form.Proper) (roomy : ¬ (form.before = some [] ∧ form.units = 7)) :
    form.Loose := by
  refine ⟨fun group member => (proper.groups group member).group, proper.tails, proper.full, proper.gap, fun kind => ?_⟩
  have short := proper.short kind
  have most := proper.gap (by rw [kind]; exact Option.some_ne_none _)
  have few : form.units ≠ 7 := fun seven => roomy ⟨kind, seven⟩
  have size : form.text.length = 2 + (joinTokens ':' form.pieces).length := by
    rw [text_some kind, joinTokens, List.nil_append, List.length_append]
    rfl
  omega

theorem Proper.spare {form : Ip6Form} (proper : form.Proper) (kind : form.before = some []) (seven : form.units = 7) :
    parseIp6Address machine form.text = .error .rejected := by
  have units := units_some kind
  rw [seven, List.length_nil, Nat.zero_add] at units
  have size := length_endBytes machine form.after form.tail
  have ends : Ends [0, 0] form.after form.tail := by
    constructor
    next => exact fun group member => (proper.groups group (List.mem_append_right _ member)).group
    next => exact proper.tails
    next => rw [← units]; decide
  have written : form.after ++ form.tail.toList ≠ [] := by
    intro nothing
    have none := List.append_eq_nil_iff.mp nothing
    rw [none.1, none.2] at units
    cases units
  have full : ([0, 0] ++ endBytes machine form.after form.tail).length = 16 := by
    rw [List.length_append, size, ← units]
    rfl
  rw [text_some kind, joinTokens, List.nil_append, pieces, parseIp6Address_ends ends written (proper.short kind)]
  exact ip6Place_full full 2

theorem Loose.proper {form : Ip6Form} (loose : form.Loose) (short : ∀ group ∈ form.groups, group.length ≤ 4)
    (whole : ∀ tail ∈ form.tail.toList, [] ∉ fields '.' tail) : form.Proper := by
  constructor
  next =>
    intro group member
    have inner := loose.groups group member
    exact ⟨inner.nonempty, inner.hex, short group member⟩
  next =>
    intro tail member
    exact (isValidIpString_whole (whole tail member)).mp (loose.tail tail member)
  next => exact loose.full
  next => exact loose.gap

theorem Proper.bytes_eq_iff {form : Ip6Form} (proper : form.Proper) :
    form.bytes (tailDots machine) = form.bytes quadBytes ↔
      ∀ tail ∈ form.tail.toList, ∀ number ∈ fields '.' tail, ¬ OctalRead number := by
  have quads := proper.tail
  rw [bytes, bytes, List.append_cancel_left_eq, List.append_cancel_left_eq]
  cases kind : form.tail with
  | none => simp
  | some tail =>
    rw [kind, Option.toList_some, List.forall_mem_singleton] at quads
    rw [Option.toList_some, List.forall_mem_singleton, List.flatMap_singleton, List.flatMap_singleton]
    exact dots_quad machine quads

theorem Loose.agrees {form other : Ip6Form} (loose : form.Loose) (proper : other.Proper)
    (same : other.text = form.text) :
    (∀ group ∈ form.groups, group.length ≤ 4) ∧ ∀ tail ∈ form.tail.toList, [] ∉ fields '.' tail := by
  have parts : form.parts = other.parts := by rw [← loose.fields_text, ← proper.fields_text, same]
  constructor
  next =>
    intro group member
    have inner := loose.groups group member
    have inside := pieces_mem_parts (.inl member)
    rw [parts] at inside
    rcases mem_parts inside with empty | group' | tail
    next => exact absurd empty inner.nonempty
    next => exact (proper.groups group group').short
    next => exact absurd inner.hex (isTail_of_isValid (proper.tails group tail)).mixed
  next =>
    intro tail member
    have outer := isTail_of_isValid (loose.tail tail member)
    have inside := pieces_mem_parts (.inr member)
    rw [parts] at inside
    rcases mem_parts inside with empty | group | quad
    next => exact absurd empty outer.nonempty
    next => exact absurd (proper.groups tail group).hex outer.mixed
    next => exact fun missing => (proper.tail tail quad).nonempty [] missing rfl

end Ip6Form

theorem ip6_exact (machine : Machine) (text : Text) : Ip6Exact machine text ↔ ¬ Ip6Defect text := by
  constructor
  next =>
    rintro ⟨inside, exact⟩ defect
    -- an accepted text is an address
    have address {form : Ip6Form} (same : form.text = text) (loose : form.Loose) :
        (∀ group ∈ form.groups, group.length ≤ 4) ∧ ∀ tail ∈ form.tail.toList, [] ∉ fields '.' tail := by
      have read : parseIp6Address machine text = _ := same ▸ loose.read
      obtain ⟨other, proper, also, _⟩ := (exact _).mp read
      exact loose.agrees proper (also.trans same.symm)
    cases defect with
    | spareGap form same proper leading seven =>
      have read := (exact _).mpr ⟨form, proper, same, rfl⟩
      rw [← same, proper.spare leading seven] at read
      cases read
    | longGroup form same loose group member long =>
      exact absurd ((address same loose).1 group member) (Nat.not_le.mpr long)
    | mergedTail form same loose tail member empty => exact (address same loose).2 tail member empty
    | octalTail form same loose tail member number inner octal =>
      have proper := loose.proper (address same loose).1 (address same loose).2
      have read := (exact _).mpr ⟨form, proper, same, rfl⟩
      rw [← same, loose.read] at read
      exact proper.bytes_eq_iff.mp (Except.ok.inj read) tail member number inner octal
    | overrun overruns => exact inside ((parseIp6Address_outside text).mpr overruns)
  next =>
    intro right
    have decimal {form : Ip6Form} (same : form.text = text) (loose : form.Loose) :
        ∀ tail ∈ form.tail.toList, ∀ number ∈ fields '.' tail, ¬ OctalRead number :=
      fun tail member number inner octal => right (.octalTail form same loose tail member number inner octal)
    constructor
    next => exact fun outside => right (.overrun ((parseIp6Address_outside text).mp outside))
    next =>
      intro bytes
      constructor
      next =>
        intro parsed
        obtain ⟨form, loose, same⟩ := form_of_parse parsed
        have proper : form.Proper := by
          apply loose.proper
          next =>
            intro group member
            by_contra long
            exact right (.longGroup form same loose group member (Nat.not_le.mp long))
          next => exact fun tail member empty => right (.mergedTail form same loose tail member empty)
        rw [← same, loose.read, proper.bytes_eq_iff.mpr (decimal same loose)] at parsed
        exact ⟨form, proper, same, Except.ok.inj parsed⟩
      next =>
        rintro ⟨form, proper, same, denoted⟩
        have loose := proper.loose fun both => right (.spareGap form same proper both.1 both.2)
        rw [← same, loose.read, proper.bytes_eq_iff.mpr (decimal same loose), denoted]

theorem ip6_refused : DenotesIp6 "::1:2:3:4:5:6:7".toList [0, 0, 0, 1, 0, 2, 0, 3, 0, 4, 0, 5, 0, 6, 0, 7] ∧
    parseIp6Address ⟨.four, true, true⟩ "::1:2:3:4:5:6:7".toList = .error .rejected := by
  constructor
  next =>
    refine ⟨⟨some [], ['1', '2', '3', '4', '5', '6', '7'].map fun c => [c], none⟩, ⟨?_, ?_, ?_, ?_⟩, rfl, rfl⟩
    next =>
      have digits : (['1', '2', '3', '4', '5', '6', '7'].all isHexAlphaOrDigit) = true := by decide
      intro group member
      obtain ⟨c, inside, same⟩ := List.mem_map.mp member
      rw [← same]
      have one : [c].length ≤ 4 := by rw [List.length_singleton]; decide
      exact ⟨List.cons_ne_nil _ _, List.forall_mem_singleton.mpr (List.all_eq_true.mp digits c inside), one⟩
    next => exact fun tail member => absurd member List.not_mem_nil
    next => intro other; cases other
    next => exact fun _ => Nat.le_refl 7
  next => decide

end Exactness

end CcspCommon.AnscPlatform
