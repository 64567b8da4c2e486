import Mathlib.Control.Monad.Writer
import Mathlib.Tactic.Common

set_option autoImplicit false

namespace CcspCommon.Shared

variable {β α γ : Type} {P : β → Prop}

def outcome (computation : Writer (List β) α) : α := computation.run.1

def AllWritten (P : β → Prop) (computation : Writer (List β) α) : Prop := ∀ output ∈ computation.run.2, P output

def recorded (value : β) : Writer (List β) β := do
  tell [value]
  pure value

@[simp] theorem outcome_pure (value : α) : outcome (pure value : Writer (List β) α) = value := rfl

@[simp] theorem outcome_recorded (value : β) : outcome (recorded value) = value := rfl

@[simp] theorem outcome_bind (first : Writer (List β) α) (next : α → Writer (List β) γ) :
    outcome (first >>= next) = outcome (next (outcome first)) := rfl

@[simp] theorem allWritten_pure (value : α) : AllWritten P (pure value : Writer (List β) α) :=
  fun _ member => absurd member List.not_mem_nil

@[simp] theorem allWritten_recorded (value : β) : AllWritten P (recorded value) ↔ P value :=
  List.forall_mem_singleton

@[simp] theorem allWritten_bind (first : Writer (List β) α) (next : α → Writer (List β) γ) :
    AllWritten P (first >>= next) ↔ AllWritten P first ∧ AllWritten P (next (outcome first)) :=
  List.forall_mem_append

section Failing

variable {ε : Type}

-- A computation that may fail and that records the places it comes to.
abbrev Tracked (β ε α : Type) : Type := ExceptT ε (Writer (List β)) α

def ending (computation : Tracked β ε α) : Except ε α := outcome computation.run

def AllVisited (P : β → Prop) (computation : Tracked β ε α) : Prop := AllWritten P computation.run

def visit (place : β) : Tracked β ε PUnit := ExceptT.lift (tell [place])

def settled (step : Except ε α) : Tracked β ε α := ExceptT.mk (pure step)

@[simp] theorem ending_pure (value : α) : ending (pure value : Tracked β ε α) = .ok value := rfl

@[simp] theorem ending_throw (failure : ε) : ending (throw failure : Tracked β ε α) = .error failure := rfl

@[simp] theorem ending_settled (step : Except ε α) : ending (settled step : Tracked β ε α) = step := rfl

@[simp] theorem ending_visit (place : β) : ending (visit place : Tracked β ε PUnit) = .ok () := rfl

theorem ending_bind (first : Tracked β ε α) (next : α → Tracked β ε γ) :
    ending (first >>= next) = ending first >>= fun value => ending (next value) := by
  change outcome (first.run >>= ExceptT.bindCont next) = _
  rw [outcome_bind, ending]
  cases outcome first.run <;> rfl

@[simp] theorem settled_ok_bind (value : α) (next : α → Tracked β ε γ) :
    settled (.ok value) >>= next = next value := rfl

@[simp] theorem allVisited_pure (value : α) : AllVisited P (pure value : Tracked β ε α) := allWritten_pure _

@[simp] theorem allVisited_throw (failure : ε) : AllVisited P (throw failure : Tracked β ε α) := allWritten_pure _

@[simp] theorem allVisited_settled (step : Except ε α) : AllVisited P (settled step : Tracked β ε α) :=
  allWritten_pure _

@[simp] theorem allVisited_visit (place : β) : AllVisited P (visit place : Tracked β ε PUnit) ↔ P place :=
  List.forall_mem_singleton

theorem ending_visit_bind (place : β) (next : PUnit → Tracked β ε γ) :
    ending (visit place >>= next) = ending (next ()) := ending_bind (visit place) next

theorem allVisited_bind (first : Tracked β ε α) (next : α → Tracked β ε γ) :
    AllVisited P (first >>= next) ↔
      AllVisited P first ∧ ∀ value, ending first = .ok value → AllVisited P (next value) := by
  change AllWritten P (first.run >>= ExceptT.bindCont next) ↔ _
  rw [allWritten_bind]
  refine and_congr_right fun _ => ?_
  unfold ending
  cases outcome first.run with
  | error failure => exact iff_of_true (allWritten_pure _) nofun
  | ok value =>
    refine ⟨?_, fun all => all value rfl⟩
    rintro all other ⟨⟩
    exact all

theorem allVisited_visit_bind (place : β) (next : PUnit → Tracked β ε γ) :
    AllVisited P (visit place >>= next) ↔ P place ∧ AllVisited P (next ()) := by
  rw [allVisited_bind, allVisited_visit]
  refine and_congr_right fun _ => ?_
  constructor
  next => exact fun all => all () rfl
  next => exact fun all _ _ => all

theorem allVisited_bind_ok {first : Tracked β ε α} {value : α} (done : ending first = .ok value)
    (next : α → Tracked β ε γ) :
    AllVisited P (first >>= next) ↔ AllVisited P first ∧ AllVisited P (next value) := by
  rw [allVisited_bind, done]
  simp

theorem steps_of_ending_bind {first : Tracked β ε α} {next : α → Tracked β ε γ} {result : γ}
    (done : ending (first >>= next) = .ok result) :
    ∃ value, ending first = .ok value ∧ ending (next value) = .ok result ∧
      (AllVisited P (first >>= next) ↔ AllVisited P first ∧ AllVisited P (next value)) := by
  rw [ending_bind] at done
  cases ended : ending first with
  | error failure =>
    rw [ended] at done
    cases done
  | ok value =>
    rw [ended] at done
    exact ⟨value, rfl, done, allVisited_bind_ok ended next⟩

instance [DecidablePred P] (computation : Tracked β ε α) : Decidable (AllVisited P computation) :=
  inferInstanceAs (Decidable (∀ output ∈ computation.run.run.2, P output))

end Failing

section Guards

variable {ε : Type} {within safe : β → Prop} {fault exhausted : ε}

structure Guards (within safe : β → Prop) (fault exhausted : ε) (computation : Tracked β ε α)
    (bad : α → Prop) : Prop where
  places : AllVisited within computation
  ends : ending computation ≠ .error exhausted
  exact : (ending computation ≠ .error fault ∧ ∀ value, ending computation = .ok value → ¬ bad value) ↔
    AllVisited safe computation

namespace Guards

variable {first : Tracked β ε α} {next : α → Tracked β ε γ} {bad : α → Prop} {badNext : γ → Prop}

theorem settled {step : Except ε α} (noFault : step ≠ .error fault) (ended : step ≠ .error exhausted)
    (good : ∀ value, step = .ok value → ¬ bad value) :
    Guards within safe fault exhausted (settled step : Tracked β ε α) bad where
  places := allVisited_settled step
  ends := ended
  exact := iff_of_true ⟨noFault, good⟩ (allVisited_settled step)

theorem pure {value : α} (good : ¬ bad value) :
    Guards within safe fault exhausted (pure value : Tracked β ε α) bad := by
  change Guards within safe fault exhausted (Shared.settled (.ok value)) bad
  apply settled
  next => simp
  next => simp
  next => simpa using good

theorem throw {failure : ε} (other : failure ≠ fault) (ended : failure ≠ exhausted) :
    Guards within safe fault exhausted (throw failure : Tracked β ε α) bad := by
  change Guards within safe fault exhausted (Shared.settled (.error failure)) bad
  apply settled
  next => simpa using other
  next => simpa using ended
  next => simp

theorem check {place : β} {rest : Tracked β ε α} (differ : fault ≠ exhausted) (inside : within place)
    (stuck : ¬ safe place → AllVisited within rest ∧
      (ending rest = .error fault ∨ ∃ value, ending rest = .ok value ∧ bad value))
    (goes : safe place → Guards within safe fault exhausted rest bad) :
    Guards within safe fault exhausted (do visit place; rest) bad := by
  have whole : ending (do visit place; rest) = ending rest := ending_visit_bind place fun _ => rest
  have places (Q : β → Prop) : AllVisited Q (do visit place; rest) ↔ Q place ∧ AllVisited Q rest := by
    rw [allVisited_bind, allVisited_visit]
    simp
  by_cases good : safe place
  next =>
    have rest := goes good
    constructor
    next => exact (places within).mpr ⟨inside, rest.places⟩
    next => simpa only [whole] using rest.ends
    next =>
      rw [whole, places safe, rest.exact]
      exact (and_iff_right good).symm
  next =>
    have stopped := stuck good
    constructor
    next => exact (places within).mpr ⟨inside, stopped.1⟩
    next =>
      rw [whole]
      cases stopped.2 with
      | inl faulty => simpa [faulty] using differ
      | inr reached =>
        obtain ⟨value, done, -⟩ := reached
        simp [done]
    next =>
      rw [whole, places safe]
      apply iff_of_false
      next =>
        intro clean
        cases stopped.2 with
        | inl faulty => exact clean.1 faulty
        | inr reached =>
          obtain ⟨value, done, wrong⟩ := reached
          exact clean.2 value done wrong
      next => exact fun all => good all.1

theorem bind (differ : fault ≠ exhausted) (start : Guards within safe fault exhausted first bad)
    (stuck : ∀ value, ending first = .ok value → bad value → next value = MonadExcept.throw fault)
    (goes : ∀ value, ending first = .ok value → ¬ bad value →
      Guards within safe fault exhausted (next value) badNext) :
    Guards within safe fault exhausted (first >>= next) badNext := by
  have exact := start.exact
  cases ended : ending first with
  | error failure =>
    have whole : ending (first >>= next) = .error failure := by
      rw [ending_bind, ended]
      rfl
    have places (Q : β → Prop) : AllVisited Q (first >>= next) ↔ AllVisited Q first := by
      rw [allVisited_bind, ended]
      simp
    have ends := start.ends
    rw [ended] at exact ends
    constructor
    next => exact (places within).mpr start.places
    next => simpa [whole] using ends
    next =>
      rw [whole, places safe, ← exact]
      simp
  | ok value =>
    have whole : ending (first >>= next) = ending (next value) := by
      rw [ending_bind, ended]
      rfl
    have places (Q : β → Prop) : AllVisited Q (first >>= next) ↔ AllVisited Q first ∧ AllVisited Q (next value) := by
      rw [allVisited_bind, ended]
      simp
    have reached : ¬ bad value ↔ AllVisited safe first := by
      rw [← exact, ended]
      simp
    by_cases wrong : bad value
    next =>
      have stops := stuck value ended wrong
      constructor
      next => exact (places within).mpr ⟨start.places, stops ▸ allVisited_throw fault⟩
      next => simpa [whole, stops] using differ
      next =>
        rw [whole, stops, places safe]
        exact iff_of_false (fun clean => clean.1 rfl) fun all => reached.mpr all.1 wrong
    next =>
      have rest := goes value ended wrong
      constructor
      next => exact (places within).mpr ⟨start.places, rest.places⟩
      next => simpa only [whole] using rest.ends
      next =>
        rw [whole, places safe, rest.exact]
        exact (and_iff_right (reached.mp wrong)).symm

theorem map {f : α → γ} (start : Guards within safe fault exhausted first bad)
    (alike : ∀ value, badNext (f value) ↔ bad value) :
    Guards within safe fault exhausted (do return f (← first)) badNext := by
  have places (Q : β → Prop) : AllVisited Q (do return f (← first)) ↔ AllVisited Q first := by
    rw [allVisited_bind]
    simp
  have whole : ending (do return f (← first)) = (ending first).map f := by
    rw [ending_bind]
    cases ending first <;> rfl
  have ends := start.ends
  have exact := start.exact
  constructor
  next => exact (places within).mpr start.places
  next =>
    rw [whole]
    cases ended : ending first with
    | error failure => simpa [ended, Except.map] using ends
    | ok value => simp [Except.map]
  next =>
    rw [whole, places safe, ← exact]
    cases ending first with
    | error failure => simp [Except.map]
    | ok value => simp [Except.map, alike]

end Guards

end Guards

end CcspCommon.Shared
