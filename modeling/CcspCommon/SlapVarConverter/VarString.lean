import CcspCommon.Shared.Text

set_option autoImplicit false

namespace CcspCommon.SlapVarConverter

open CcspCommon.Shared

inductive Failure
  | null | outside
deriving DecidableEq, Repr

-- `sprintf_s` at a place within the string, with the number of bytes that are allocated for the
-- whole string. `limit` is the largest size that `sprintf_s` takes (`RSIZE_MAX_STR`).
def printAt (limit room : Nat) (var_string : Text) (place : Nat) (piece : Text) : Except Failure Text :=
  if limit < room ∨ room ≤ piece.length then .error .null
  else if room ≤ place + piece.length then .error .outside
  else .ok (var_string.take place ++ piece)

def printPieces (limit room : Nat) : List Text → Text → Except Failure Text
  | [], var_string => .ok var_string
  | piece :: rest, var_string =>
    match printAt limit room var_string var_string.length piece with
    | .error failure => .error failure
    | .ok var_string => printPieces limit room rest var_string

theorem printAt_end {limit room : Nat} (taken : room ≤ limit) (var_string : Text) {piece : Text}
    (fits : var_string.length + piece.length < room) :
    printAt limit room var_string var_string.length piece = .ok (var_string ++ piece) := by
  rw [printAt, if_neg (by omega), if_neg (by omega), List.take_length]

theorem printPieces_ok {limit room : Nat} (taken : room ≤ limit) {pieces : List Text} {var_string : Text}
    (fits : var_string.length + pieces.flatten.length < room) :
    printPieces limit room pieces var_string = .ok (var_string ++ pieces.flatten) := by
  induction pieces generalizing var_string with
  | nil => rw [printPieces, List.flatten_nil, List.append_nil]
  | cons piece rest ih =>
    rw [List.flatten_cons, List.length_append] at fits
    have first := printAt_end taken var_string (show var_string.length + piece.length < room by omega)
    rw [printPieces, first]
    dsimp only
    rw [ih (by rw [List.length_append]; omega), List.flatten_cons, List.append_assoc]

theorem printPieces_null {limit room : Nat} (refused : limit < room) {pieces : List Text} (some : pieces ≠ [])
    (var_string : Text) : printPieces limit room pieces var_string = .error .null := by
  cases pieces with
  | nil => exact absurd rfl some
  | cons piece rest => rw [printPieces, printAt, if_pos (.inl refused)]

end CcspCommon.SlapVarConverter
