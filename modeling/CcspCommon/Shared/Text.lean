import Mathlib.Data.List.Infix
import Mathlib.Tactic.Common

set_option autoImplicit false

namespace CcspCommon.Shared

-- A C string: the characters before the terminating NUL. A `char*` that may be NULL is an `Option
-- Text`.
abbrev Text := List Char

instance : LawfulBEq Text := inferInstance

def strstr (pattern : Text) : Text → Option Text
  | [] => if pattern = [] then some [] else none
  | c :: rest => if pattern.isPrefixOf (c :: rest) then some (c :: rest) else strstr pattern rest

theorem strstr_char {c : Char} {segment : Text} (free : c ∉ segment) (rest : Text) :
    strstr [c] (segment ++ c :: rest) = some (c :: rest) := by
  induction segment with
  | nil => simp [strstr]
  | cons d segment ih =>
    simp only [List.mem_cons, not_or] at free
    have differs : [c].isPrefixOf (d :: (segment ++ c :: rest)) = false := by
      simp [List.isPrefixOf, free.1]
    rw [List.cons_append, strstr, differs, if_neg Bool.false_ne_true, ih free.2]

theorem strstr_eq_none {pattern : Text} (nonempty : pattern ≠ []) (text : Text) :
    strstr pattern text = none ↔ ¬ pattern <:+: text := by
  induction text with
  | nil => simp [strstr, nonempty]
  | cons c rest ih =>
    rw [strstr, List.infix_cons_iff, not_or, ← ih]
    by_cases here : pattern <+: c :: rest
    · simp [List.isPrefixOf_iff_prefix.mpr here, here]
    · have differs : pattern.isPrefixOf (c :: rest) = false := by
        rw [Bool.eq_false_iff]
        exact fun starts => here (List.isPrefixOf_iff_prefix.mp starts)
      simp [differs, here]

theorem strstr_absent {pattern text : Text} {c : Char} (inside : c ∈ pattern) (absent : c ∉ text) :
    strstr pattern text = none := by
  rw [strstr_eq_none (List.ne_nil_of_mem inside)]
  intro occurs
  exact absent (occurs.subset inside)

theorem strstr_suffix {pattern text found : Text} (here : strstr pattern text = some found) : found <:+ text := by
  induction text with
  | nil =>
    rw [strstr] at here
    split at here
    next =>
      cases here
      exact List.suffix_refl []
    next => cases here
  | cons c rest ih =>
    rw [strstr] at here
    split at here
    next =>
      cases here
      exact List.suffix_refl (c :: rest)
    next => exact (ih here).trans (List.suffix_cons c rest)

theorem strstr_self {pattern text : Text} (nonempty : pattern ≠ []) :
    strstr pattern text = some text ↔ ∃ rest, text = pattern ++ rest := by
  cases text with
  | nil => simp [strstr, nonempty]
  | cons c rest =>
    rw [strstr]
    split
    next starts =>
      obtain ⟨behind, same⟩ := List.isPrefixOf_iff_prefix.mp starts
      exact iff_of_true rfl ⟨behind, same.symm⟩
    next differs =>
      apply iff_of_false
      next =>
        intro found
        have shorter := (strstr_suffix found).length_le
        simp only [List.length_cons] at shorter
        omega
      next =>
        rintro ⟨behind, same⟩
        exact differs (List.isPrefixOf_iff_prefix.mpr ⟨behind, same.symm⟩)

-- The bounded copy that leaves the destination alone when the source is NULL or does not fit.
def strcpyNoClobber (size : Nat) (destination : Text) : Option Text → Text
  | none => destination
  | some source => if source.length < size then source else destination

end CcspCommon.Shared
