import Mathlib.Data.List.Basic

set_option autoImplicit false

namespace CcspCommon.Shared

section Blocks

variable {A : Type}

def written (block : List A) (place : Nat) (values : List A) : List A :=
  block.take place ++ (values ++ block.drop (place + values.length))

-- There is no result where a write would leave the block.
def writeAt (block : List A) (place : Nat) (values : List A) : Option (List A) :=
  if place + values.length ≤ block.length then some (written block place values) else none

variable {block after values : List A} {place : Nat}

theorem length_written (fits : place + values.length ≤ block.length) :
    (written block place values).length = block.length := by
  simp only [written, List.length_append, List.length_take, List.length_drop]
  omega

theorem written_nil : written block place [] = block := by simp [written]

theorem take_written (fits : place + values.length ≤ block.length) :
    (written block place values).take (place + values.length) = block.take place ++ values := by
  have front : (block.take place).length = place := List.length_take_of_le (by omega)
  rw [written, ← List.append_assoc, List.take_left' (by rw [List.length_append, front])]

theorem drop_written (fits : place + values.length ≤ block.length) (count : Nat) :
    (written block place values).drop (place + values.length + count) = block.drop (place + values.length + count) := by
  have front : (block.take place).length = place := List.length_take_of_le (by omega)
  rw [written, ← List.append_assoc, ← List.drop_drop, List.drop_left' (by rw [List.length_append, front]),
    List.drop_drop]

theorem writeAt_eq (fits : place + values.length ≤ block.length) :
    writeAt block place values = some (written block place values) := if_pos fits

theorem writeAt_nil (inside : place ≤ block.length) : writeAt block place [] = some block := by
  rw [writeAt_eq inside, written_nil]

theorem writeAt_some (run : writeAt block place values = some after) :
    place + values.length ≤ block.length ∧ after = written block place values := by
  rw [writeAt] at run
  split at run
  next fits => exact ⟨fits, (Option.some.inj run).symm⟩
  next => cases run

theorem length_writeAt (run : writeAt block place values = some after) : after.length = block.length := by
  obtain ⟨fits, rfl⟩ := writeAt_some run
  exact length_written fits

theorem writeAt_inside (run : writeAt block place values = some after) : place + values.length ≤ after.length := by
  rw [length_writeAt run]
  exact (writeAt_some run).1

theorem writeAt_data (run : writeAt block place values = some after) :
    after.take (place + values.length) = block.take place ++ values := by
  obtain ⟨fits, rfl⟩ := writeAt_some run
  exact take_written fits

theorem writeAt_take (run : writeAt block place values = some after) {count : Nat} (before : count ≤ place) :
    after.take count = block.take count := by
  obtain ⟨fits, rfl⟩ := writeAt_some run
  rw [written, List.take_append_of_le_length (by rw [List.length_take]; omega), List.take_take, Nat.min_eq_left before]

theorem writeAt_twice (run : writeAt block place values = some after) (more : List A) :
    writeAt after (place + values.length) more = writeAt block place (values ++ more) := by
  have size := length_writeAt run
  obtain ⟨fits, rfl⟩ := writeAt_some run
  rw [writeAt, writeAt, size, List.length_append, ← Nat.add_assoc]
  split
  next =>
    rw [written, take_written fits, drop_written fits, written, List.length_append, List.append_assoc,
      List.append_assoc, Nat.add_assoc]
  next => rfl

theorem writeAt_part (front : List A) {old values : List A} (same : old.length = values.length) (back : List A) :
    writeAt (front ++ (old ++ back)) front.length values = some (front ++ (values ++ back)) := by
  have behind : (front ++ (old ++ back)).drop (front.length + values.length) = back := by
    rw [← same, List.drop_length_add_append, List.drop_left]
  have inside : front.length + values.length ≤ (front ++ (old ++ back)).length := by
    simp only [List.length_append]
    omega
  rw [writeAt_eq inside, written, behind, List.take_left]

theorem writeAt_room (front room : List A) {values : List A} (enough : values.length ≤ room.length) :
    writeAt (front ++ room) front.length values = some (front ++ (values ++ room.drop values.length)) := by
  have front_of_room : (room.take values.length).length = values.length := by simp [enough]
  have part := writeAt_part front front_of_room (room.drop values.length)
  rwa [List.take_append_drop] at part

end Blocks

section Appending

variable {A B S : Type}

theorem foldlM_appends {step : S → B → Option S} {state : List A → S} {piece : B → List A} {limit : Nat}
    (one : ∀ held item, (held ++ piece item).length ≤ limit →
      step (state held) item = some (state (held ++ piece item)))
    (items : List B) {held : List A} (fits : (held ++ items.flatMap piece).length ≤ limit) :
    items.foldlM step (state held) = some (state (held ++ items.flatMap piece)) := by
  induction items generalizing held with
  | nil => simp
  | cons item rest ih =>
    have first : (held ++ piece item).length ≤ limit := by
      simp only [List.flatMap_cons, List.length_append] at fits ⊢
      omega
    rw [List.flatMap_cons, ← List.append_assoc] at fits ⊢
    simp only [List.foldlM_cons, one held item first, Option.bind_eq_bind, Option.bind_some]
    exact ih fits

end Appending

end CcspCommon.Shared
