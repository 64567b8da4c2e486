import Mathlib.Data.List.Nodup
import Mathlib.Logic.Function.Basic
import Mathlib.Tactic.Common

set_option autoImplicit false

namespace CcspCommon.Shared

section Paths

variable {P : Type}

def Path (next : P → Option P) : Option P → List P → Option P → Prop
  | start, [], stop => start = stop
  | start, p :: rest, stop => start = some p ∧ Path next (next p) rest stop

theorem path_nil {next : P → Option P} {start stop : Option P} : Path next start [] stop ↔ start = stop := Iff.rfl

theorem path_cons {next : P → Option P} {start stop : Option P} {p : P} {rest : List P} :
    Path next start (p :: rest) stop ↔ start = some p ∧ Path next (next p) rest stop := Iff.rfl

theorem path_append {next : P → Option P} {start stop : Option P} {first second : List P} :
    Path next start (first ++ second) stop ↔
      ∃ middle, Path next start first middle ∧ Path next middle second stop := by
  induction first generalizing start with
  | nil => simp [path_nil]
  | cons p rest ih => simp [path_cons, ih, and_assoc]

theorem Path.start_eq {next : P → Option P} {start stop : Option P} {list : List P}
    (path : Path next start list stop) : start = list.head?.or stop := by
  cases list with
  | nil => simpa using path_nil.mp path
  | cons p rest => simpa using path.1

theorem Path.next_eq {next : P → Option P} {start : Option P} {first second : List P} {p : P}
    (path : Path next start (first ++ p :: second) none) : next p = second.head? := by
  obtain ⟨middle, -, -, rest⟩ := path_append.mp path
  simpa using rest.start_eq

theorem Path.congr {next other : P → Option P} {start stop : Option P} {list : List P}
    (path : Path next start list stop) (same : ∀ p ∈ list, next p = other p) : Path other start list stop := by
  induction list generalizing start with
  | nil => exact path
  | cons p rest ih =>
    obtain ⟨atStart, later⟩ := path
    rw [same p List.mem_cons_self] at later
    exact ⟨atStart, ih later fun q member => same q (List.mem_cons_of_mem p member)⟩

variable [DecidableEq P]

theorem Path.update {next : P → Option P} {start stop : Option P} {list : List P}
    (path : Path next start list stop) {p : P} (absent : p ∉ list) (value : Option P) :
    Path (Function.update next p value) start list stop := by
  apply path.congr
  intro q member
  have differs : q ≠ p := by
    rintro rfl
    exact absent member
  rw [Function.update_of_ne differs]

def relink (next : P → Option P) (previous value : Option P) : P → Option P :=
  match previous with
  | none => next
  | some p => Function.update next p value

def restart (start previous value : Option P) : Option P :=
  match previous with
  | none => value
  | some _ => start

theorem Path.relink_of_not_mem {next : P → Option P} {start stop : Option P} {list : List P}
    (path : Path next start list stop) {previous : Option P} (absent : ∀ p ∈ previous, p ∉ list)
    (value : Option P) : Path (relink next previous value) start list stop := by
  cases previous with
  | none => exact path
  | some p => exact path.update (absent p rfl) value

theorem Path.redirect {next : P → Option P} {start stop : Option P} {list : List P}
    (path : Path next start list stop) (nodup : list.Nodup) (value : Option P) :
    Path (relink next list.getLast? value) (restart start list.getLast? value) list value := by
  rcases List.eq_nil_or_concat list with rfl | ⟨front, last, rfl⟩
  · rfl
  · rw [List.concat_eq_append] at path nodup ⊢
    obtain ⟨middle, before, atLast, -⟩ := path_append.mp path
    have absent : last ∉ front := by
      intro member
      exact List.disjoint_of_nodup_append nodup member (List.mem_singleton.mpr rfl)
    rw [List.getLast?_append, List.getLast?_singleton]
    exact path_append.mpr ⟨middle, before.update absent value, atLast, Function.update_self _ _ _⟩

theorem Path.insert {next : P → Option P} {start stop : Option P} {first second : List P}
    (path : Path next start (first ++ second) stop) (nodup : (first ++ second).Nodup) {p : P}
    (fresh : p ∉ first ++ second) :
    Path (relink (Function.update next p (second.head?.or stop)) first.getLast? (some p))
      (restart start first.getLast? (some p)) (first ++ p :: second) stop := by
  obtain ⟨middle, before, behind⟩ := path_append.mp path
  rw [List.mem_append, not_or] at fresh
  have outside : ∀ q ∈ first.getLast?, q ∉ p :: second := by
    intro q last member
    have inFirst := List.mem_of_getLast? last
    rcases List.mem_cons.mp member with rfl | inSecond
    · exact fresh.1 inFirst
    · exact List.disjoint_of_nodup_append nodup inFirst inSecond
  refine path_append.mpr ⟨some p, (before.update fresh.1 _).redirect nodup.of_append_left (some p), ?_⟩
  apply Path.relink_of_not_mem _ outside
  refine ⟨rfl, ?_⟩
  rw [Function.update_self, ← behind.start_eq]
  exact behind.update fresh.2 _

theorem Path.remove {next : P → Option P} {start stop : Option P} {first second : List P} {p : P}
    (path : Path next start (first ++ p :: second) stop) (nodup : (first ++ p :: second).Nodup) :
    Path (relink next first.getLast? (next p)) (restart start first.getLast? (next p)) (first ++ second) stop := by
  obtain ⟨middle, before, -, behind⟩ := path_append.mp path
  have outside : ∀ q ∈ first.getLast?, q ∉ second := by
    intro q last member
    exact List.disjoint_of_nodup_append nodup (List.mem_of_getLast? last) (List.mem_cons_of_mem p member)
  exact path_append.mpr ⟨next p, before.redirect nodup.of_append_left (next p),
    behind.relink_of_not_mem outside (next p)⟩

end Paths

end CcspCommon.Shared
