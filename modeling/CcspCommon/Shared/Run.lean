import Mathlib.Logic.Basic
import Mathlib.Tactic.Common

set_option autoImplicit false

namespace CcspCommon.Shared

section Runs

variable {S A : Type}

/-- States reached from `start` by steps that all meet `allowed`; a step that has no result (the program would
dereference a null or freed pointer) ends the run. -/
inductive Reachable (step : S → A → Option S) (allowed : S → A → Prop) (start : S) : S → Prop
  | start : Reachable step allowed start start
  | next {s t : S} {action : A} : Reachable step allowed start s → allowed s action →
      step s action = some t → Reachable step allowed start t

variable {step : S → A → Option S} {allowed : S → A → Prop} {start : S}

theorem Reachable.via {s t : S} (reached : Reachable step allowed start s) (action : A) (allow : allowed s action)
    (run : step s action = some t) : Reachable step allowed start t :=
  .next reached allow run

theorem Reachable.invariant {holds : S → Prop} (initial : holds start)
    (preserved : ∀ s t action, holds s → allowed s action → step s action = some t → holds t)
    {s : S} (reached : Reachable step allowed start s) : holds s := by
  induction reached with
  | start => exact initial
  | next _ allow run ih => exact preserved _ _ _ ih allow run

theorem Reachable.mono {more : S → A → Prop} (weaker : ∀ s action, allowed s action → more s action) {s : S}
    (reached : Reachable step allowed start s) : Reachable step more start s := by
  induction reached with
  | start => exact .start
  | next _ allow run ih => exact .next ih (weaker _ _ allow) run

def runAll (step : S → A → Option S) : S → List A → Option S
  | s, [] => some s
  | s, action :: rest => (step s action).bind fun t => runAll step t rest

theorem runAll_reachable (actions : List A) (all : ∀ s, ∀ action ∈ actions, allowed s action) {s t : S}
    (reached : Reachable step allowed start s) (run : runAll step s actions = some t) :
    Reachable step allowed start t := by
  induction actions generalizing s with
  | nil =>
    simp only [runAll, Option.some.injEq] at run
    exact run ▸ reached
  | cons action rest ih =>
    simp only [runAll, Option.bind_eq_some_iff] at run
    obtain ⟨u, first, later⟩ := run
    exact ih (fun s other member => all s other (List.mem_cons_of_mem action member))
      (.next reached (all s action List.mem_cons_self) first) later

theorem runAllowed_reachable [∀ s action, Decidable (allowed s action)] (actions : List A) {s t : S}
    (reached : Reachable step allowed start s)
    (run : runAll (fun s action => if allowed s action then step s action else none) s actions = some t) :
    Reachable step allowed start t := by
  induction actions generalizing s with
  | nil =>
    simp only [runAll, Option.some.injEq] at run
    exact run ▸ reached
  | cons action rest ih =>
    simp only [runAll, Option.bind_eq_some_iff, Option.ite_none_right_eq_some] at run
    obtain ⟨u, ⟨allow, first⟩, later⟩ := run
    exact ih (.next reached allow first) later

end Runs

section Steps

theorem bind_eq_ok {E A B : Type} {first : Except E A} {next : A → Except E B} {result : B}
    (success : (first >>= next) = .ok result) : ∃ produced, first = .ok produced ∧ next produced = .ok result := by
  cases first with
  | error failure => cases success
  | ok produced => exact ⟨produced, rfl, success⟩

end Steps

end CcspCommon.Shared
