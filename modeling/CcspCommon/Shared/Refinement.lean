import Mathlib.Tactic.Common

set_option autoImplicit false

namespace CcspCommon.Shared

section Refinement

variable {S T A B : Type}

def answerAll (step : S → A → Option (S × B)) : S → List A → Option (S × List B)
  | s, [] => some (s, [])
  | s, action :: rest => do
    let (next, answer) ← step s action
    let (final, answers) ← answerAll step next rest
    some (final, answer :: answers)

def specAll (spec : T → A → T × B) : T → List A → T × List B
  | t, [] => (t, [])
  | t, action :: rest =>
    let (next, answer) := spec t action
    let (final, answers) := specAll spec next rest
    (final, answer :: answers)

def AllowedRun (spec : T → A → T × B) (allowed : T → A → Prop) : T → List A → Prop
  | _, [] => True
  | t, action :: rest => allowed t action ∧ AllowedRun spec allowed (spec t action).1 rest

instance AllowedRun.decidable (spec : T → A → T × B) (allowed : T → A → Prop)
    [∀ t action, Decidable (allowed t action)] : ∀ t actions, Decidable (AllowedRun spec allowed t actions)
  | _, [] => inferInstanceAs (Decidable True)
  | t, action :: rest =>
    have := AllowedRun.decidable spec allowed (spec t action).1 rest
    inferInstanceAs (Decidable (_ ∧ _))

variable {step : S → A → Option (S × B)} {spec : T → A → T × B} {allowed : T → A → Prop}
  {represents : S → T → Prop}

theorem answerAll_refines
    (refines : ∀ s t action, represents s t → allowed t action →
      ∃ next, step s action = some (next, (spec t action).2) ∧ represents next (spec t action).1)
    {s : S} {t : T} (start : represents s t) (actions : List A) (allow : AllowedRun spec allowed t actions) :
    ∃ final, answerAll step s actions = some (final, (specAll spec t actions).2) ∧
      represents final (specAll spec t actions).1 := by
  induction actions generalizing s t with
  | nil => exact ⟨s, rfl, start⟩
  | cons action rest ih =>
    obtain ⟨next, stepped, same⟩ := refines s t action start allow.1
    obtain ⟨final, ran, represented⟩ := ih same allow.2
    refine ⟨final, ?_, represented⟩
    simp only [answerAll, stepped, ran, Option.bind_eq_bind, Option.bind_some]
    rfl

end Refinement

end CcspCommon.Shared
