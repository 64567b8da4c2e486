import Mathlib.Data.List.Basic

set_option autoImplicit false

namespace CcspCommon.Shared

section Pieces

variable {A : Type} (IsSeparator : A → Prop)

inductive Pieces : List A → List (List A) → Prop
  | none {gap : List A} (separators : ∀ c ∈ gap, IsSeparator c) : Pieces gap []
  | piece {gap piece behind : List A} {pieces : List (List A)} (separators : ∀ c ∈ gap, IsSeparator c)
      (nonempty : piece ≠ []) (free : ∀ c ∈ piece, ¬ IsSeparator c)
      (ended : ∀ c, behind.head? = some c → IsSeparator c) (later : Pieces behind pieces) :
      Pieces (gap ++ (piece ++ behind)) (piece :: pieces)

variable {IsSeparator}

theorem Pieces.behind_gap {gap text : List A} {pieces : List (List A)} (separators : ∀ c ∈ gap, IsSeparator c)
    (cut : Pieces IsSeparator text pieces) : Pieces IsSeparator (gap ++ text) pieces := by
  cases cut with
  | none more => exact .none fun c member => (List.mem_append.mp member).elim (separators c) (more c)
  | piece more nonempty free ended later =>
    rw [← List.append_assoc]
    exact .piece (fun c member => (List.mem_append.mp member).elim (separators c) (more c)) nonempty free ended later

theorem Pieces.whole {piece : List A} (nonempty : piece ≠ []) (free : ∀ c ∈ piece, ¬ IsSeparator c) :
    Pieces IsSeparator piece [piece] := by
  have alone : Pieces IsSeparator ([] ++ (piece ++ [])) [piece] := .piece nofun nonempty free nofun (.none nofun)
  rwa [List.append_nil, List.nil_append] at alone

theorem Pieces.front {piece behind : List A} {pieces : List (List A)} (nonempty : piece ≠ [])
    (free : ∀ c ∈ piece, ¬ IsSeparator c) (ended : ∀ c, behind.head? = some c → IsSeparator c)
    (later : Pieces IsSeparator behind pieces) : Pieces IsSeparator (piece ++ behind) (piece :: pieces) :=
  (Pieces.piece nofun nonempty free ended later : Pieces IsSeparator ([] ++ (piece ++ behind)) _)

theorem Pieces.proper {text : List A} {pieces : List (List A)} (cut : Pieces IsSeparator text pieces) :
    ∀ piece ∈ pieces, piece ≠ [] ∧ ∀ c ∈ piece, ¬ IsSeparator c := by
  induction cut with
  | none separators => exact nofun
  | piece separators nonempty free ended later ih =>
    rw [List.forall_mem_cons]
    exact ⟨⟨nonempty, free⟩, ih⟩

end Pieces

end CcspCommon.Shared
