import Mathlib.Data.List.Infix
import Mathlib.Data.Nat.Find
import Mathlib.Tactic.Common

set_option autoImplicit false

namespace CcspCommon.Shared

variable {α : Type}

def OccursAt (pattern text : List α) (place : Nat) : Prop := pattern <+: text.drop place

theorem occursAt_iff {pattern text : List α} {place : Nat} :
    OccursAt pattern text place ↔ pattern <+: text.drop place := Iff.rfl

theorem OccursAt.length_le {pattern text : List α} {place : Nat} (here : OccursAt pattern text place)
    (nonempty : pattern ≠ []) : place + pattern.length ≤ text.length := by
  have few := List.IsPrefix.length_le here
  have some := List.length_pos_of_ne_nil nonempty
  rw [List.length_drop] at few
  omega

theorem occursAt_append_iff {pattern text : List α} {place : Nat} (fits : place + pattern.length ≤ text.length)
    (more : List α) : OccursAt pattern (text ++ more) place ↔ OccursAt pattern text place := by
  rw [occursAt_iff, occursAt_iff, List.drop_append_of_le_length (by omega)]
  constructor
  next =>
    intro here
    refine List.prefix_of_prefix_length_le here (List.prefix_append _ _) ?_
    rw [List.length_drop]
    omega
  next => exact fun here => here.trans (List.prefix_append _ _)

theorem OccursAt.append {pattern text : List α} {place : Nat} (here : OccursAt pattern text place)
    (nonempty : pattern ≠ []) (more : List α) : OccursAt pattern (text ++ more) place :=
  (occursAt_append_iff (here.length_le nonempty) more).mpr here

theorem occursAt_drop (pattern text : List α) (before place : Nat) :
    OccursAt pattern (text.drop before) place ↔ OccursAt pattern text (before + place) := by
  rw [occursAt_iff, occursAt_iff, List.drop_drop]

theorem occursAt_append_right (pattern front text : List α) (place : Nat) :
    OccursAt pattern (front ++ text) (front.length + place) ↔ OccursAt pattern text place := by
  rw [occursAt_iff, occursAt_iff, List.drop_append, Nat.add_sub_cancel_left, List.drop_eq_nil_of_le (by omega),
    List.nil_append]

theorem occursAt_here (front pattern rest : List α) : OccursAt pattern (front ++ (pattern ++ rest)) front.length := by
  rw [occursAt_iff, List.drop_left]
  exact List.prefix_append pattern rest

theorem OccursAt.split {pattern text : List α} {place : Nat} (here : OccursAt pattern text place) :
    ∃ rest, text.drop place = pattern ++ rest := by
  obtain ⟨rest, same⟩ := here
  exact ⟨rest, same.symm⟩

theorem not_occursAt_free {first : α} {pattern front : List α} (free : first ∉ front) (text : List α) {place : Nat}
    (inside : place < front.length) : ¬ OccursAt (first :: pattern) (front ++ text) place := by
  intro here
  obtain ⟨rest, same⟩ := here.split
  rw [List.drop_append_of_le_length (by omega), List.drop_eq_getElem_cons inside, List.cons_append, List.cons_append,
    List.cons.injEq] at same
  exact free (same.1 ▸ List.getElem_mem inside)

theorem OccursAt.ends_before {pattern front back : List α} {separator : α} (free : separator ∉ pattern) {place : Nat}
    (here : OccursAt pattern (front ++ separator :: back) place) (begins : place ≤ front.length) :
    place + pattern.length ≤ front.length := by
  obtain ⟨rest, same⟩ := here.split
  refine Nat.le_of_not_lt fun across => free ?_
  rw [List.drop_append_of_le_length begins] at same
  have inside : front.length - place < pattern.length := by omega
  have found := congrArg (fun text : List α => text[front.length - place]?) same
  rw [← List.length_drop, List.getElem?_append_right (Nat.le_refl _), Nat.sub_self, List.getElem?_cons_zero,
    List.length_drop, List.getElem?_append_left inside] at found
  exact List.mem_of_getElem? found.symm

theorem OccursAt.inside {pattern text : List α} {place : Nat} (here : OccursAt pattern text place) :
    pattern <:+: text := (List.IsPrefix.isInfix here).trans (List.drop_suffix place text).isInfix

section Search

variable [DecidableEq α]

def firstAt (pattern : List α) : List α → Option Nat
  | [] => if pattern = [] then some 0 else none
  | first :: rest => if pattern.isPrefixOf (first :: rest) then some 0 else (firstAt pattern rest).map (· + 1)

theorem firstAt_nil (pattern : List α) : firstAt pattern [] = if pattern = [] then some 0 else none := rfl

theorem firstAt_cons (pattern : List α) (first : α) (rest : List α) : firstAt pattern (first :: rest) =
    if pattern.isPrefixOf (first :: rest) then some 0 else (firstAt pattern rest).map (· + 1) := rfl

theorem firstAt_eq_some {pattern text : List α} {place : Nat} :
    firstAt pattern text = some place ↔
      OccursAt pattern text place ∧ ∀ earlier < place, ¬ OccursAt pattern text earlier := by
  induction text generalizing place with
  | nil =>
    rw [firstAt_nil, occursAt_iff, List.drop_nil, List.prefix_nil]
    constructor
    next =>
      intro found
      split at found
      next empty =>
        cases found
        exact ⟨empty, fun earlier less => absurd less (Nat.not_lt_zero earlier)⟩
      next => cases found
    next =>
      rintro ⟨empty, least⟩
      rw [if_pos empty]
      cases place with
      | zero => rfl
      | succ place =>
        refine absurd ?_ (least 0 (Nat.succ_pos place))
        rw [occursAt_iff, empty]
        exact List.nil_prefix
  | cons first rest ih =>
    rw [firstAt_cons]
    split
    next starts =>
      have here : OccursAt pattern (first :: rest) 0 := List.isPrefixOf_iff_prefix.mp starts
      constructor
      next =>
        intro found
        cases found
        exact ⟨here, fun earlier less => absurd less (Nat.not_lt_zero earlier)⟩
      next =>
        rintro ⟨_, least⟩
        cases place with
        | zero => rfl
        | succ place => exact absurd here (least 0 (Nat.succ_pos place))
    next differs =>
      have notHere : ¬ OccursAt pattern (first :: rest) 0 := fun here => differs (List.isPrefixOf_iff_prefix.mpr here)
      have shifted : ∀ place, OccursAt pattern (first :: rest) (place + 1) ↔ OccursAt pattern rest place :=
        fun place => Iff.rfl
      rw [Option.map_eq_some_iff]
      constructor
      next =>
        rintro ⟨before, found, same⟩
        obtain ⟨here, least⟩ := ih.mp found
        rw [← same]
        refine ⟨(shifted before).mpr here, fun earlier less => ?_⟩
        cases earlier with
        | zero => exact notHere
        | succ earlier => exact fun other => least earlier (by omega) ((shifted earlier).mp other)
      next =>
        rintro ⟨here, least⟩
        cases place with
        | zero => exact absurd here notHere
        | succ place =>
          refine ⟨place, ih.mpr ⟨(shifted place).mp here, fun earlier less other => ?_⟩, rfl⟩
          exact least (earlier + 1) (by omega) ((shifted earlier).mpr other)

theorem firstAt_eq_none {pattern text : List α} :
    firstAt pattern text = none ↔ ∀ place, ¬ OccursAt pattern text place := by
  constructor
  next =>
    intro absent place here
    classical
    have least := Nat.find_spec (⟨place, here⟩ : ∃ place, OccursAt pattern text place)
    have found := firstAt_eq_some.mpr ⟨least, fun earlier less => Nat.find_min _ less⟩
    rw [absent] at found
    cases found
  next =>
    intro nowhere
    match same : firstAt pattern text with
    | none => rfl
    | some place => exact absurd (firstAt_eq_some.mp same).1 (nowhere place)

theorem firstAt_append_absent {pattern front text : List α}
    (absent : ∀ early < front.length, ¬ OccursAt pattern (front ++ text) early) :
    firstAt pattern (front ++ text) = (firstAt pattern text).map (front.length + ·) := by
  match found : firstAt pattern text with
  | none =>
    refine firstAt_eq_none.mpr fun place here => ?_
    rcases Nat.lt_or_ge place front.length with early | behind
    · exact absent place early here
    · obtain ⟨inside, same⟩ := Nat.exists_eq_add_of_le behind
      rw [same, occursAt_append_right] at here
      exact firstAt_eq_none.mp found inside here
  | some place =>
    obtain ⟨here, least⟩ := firstAt_eq_some.mp found
    refine firstAt_eq_some.mpr ⟨(occursAt_append_right _ _ _ _).mpr here, fun earlier less => ?_⟩
    rcases Nat.lt_or_ge earlier front.length with early | behind
    · exact absent earlier early
    · obtain ⟨before, same⟩ := Nat.exists_eq_add_of_le behind
      rw [same] at less ⊢
      rw [occursAt_append_right]
      exact least before (Nat.lt_of_add_lt_add_left less)

theorem firstAt_append_left {pattern front : List α} {first : α} (free : first ∉ front) (text : List α) :
    firstAt (first :: pattern) (front ++ text) = (firstAt (first :: pattern) text).map (front.length + ·) :=
  firstAt_append_absent fun _ early => not_occursAt_free free text early

theorem firstAt_append_right {pattern text : List α} (nonempty : pattern ≠ []) {place : Nat}
    (found : firstAt pattern text = some place) (more : List α) : firstAt pattern (text ++ more) = some place := by
  obtain ⟨here, least⟩ := firstAt_eq_some.mp found
  have fits := here.length_le nonempty
  refine firstAt_eq_some.mpr ⟨here.append nonempty more, fun earlier less other => ?_⟩
  exact least earlier less ((occursAt_append_iff (by omega) more).mp other)

theorem firstAt_part {pattern text more : List α} {place : Nat} (found : firstAt pattern (text ++ more) = some place)
    (fits : place + pattern.length ≤ text.length) : firstAt pattern text = some place := by
  obtain ⟨here, least⟩ := firstAt_eq_some.mp found
  refine firstAt_eq_some.mpr ⟨(occursAt_append_iff fits more).mp here, fun earlier less other => ?_⟩
  exact least earlier less ((occursAt_append_iff (by omega) more).mpr other)

theorem firstAt_prefix (pattern rest : List α) : firstAt pattern (pattern ++ rest) = some 0 :=
  firstAt_eq_some.mpr ⟨List.prefix_append _ _, fun earlier less => absurd less (Nat.not_lt_zero earlier)⟩

theorem firstAt_here {pattern front : List α} {first : α} (free : first ∉ front) (rest : List α) :
    firstAt (first :: pattern) (front ++ (first :: pattern ++ rest)) = some front.length := by
  rw [firstAt_append_left free, firstAt_prefix, Option.map_some, Nat.add_zero]

end Search

end CcspCommon.Shared
