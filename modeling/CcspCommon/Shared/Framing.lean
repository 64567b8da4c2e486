import Mathlib

set_option autoImplicit false

namespace CcspCommon.Shared

/-- A format in which the first `header` symbols of a frame tell how long the frame is. -/
structure Framing (A : Type) where
  header : Nat
  size : List A → Nat
  size_front : ∀ front behind, header ≤ front.length → size (front ++ behind) = size front

namespace Framing

variable {A : Type} (framing : Framing A)

structure IsFrame (frame : List A) : Prop where
  longer : framing.header < frame.length
  announced : framing.size frame = frame.length

def Waits (rest : List A) : Prop :=
  rest.length < framing.header ∨ framing.header ≤ rest.length ∧ rest.length < framing.size rest

structure Cut (arrived : List A) (frames : List (List A)) (rest : List A) : Prop where
  proper : ∀ frame ∈ frames, framing.IsFrame frame
  whole : arrived = frames.flatten ++ rest
  waits : framing.Waits rest

variable {framing}

theorem size_of_frame {frame : List A} (proper : framing.IsFrame frame) (behind : List A) :
    framing.size (frame ++ behind) = frame.length := by
  simpa [proper.announced] using framing.size_front frame behind (Nat.le_of_lt proper.longer)

theorem size_on_the_way {frames : List (List A)} (proper : ∀ frame ∈ frames, framing.IsFrame frame)
    {arrived behind : List A} (sent : arrived ++ behind = frames.flatten) (some : 0 < framing.header)
    (header : framing.header ≤ arrived.length) :
    ∃ frame later, frames = frame :: later ∧ framing.size arrived = frame.length := by
  cases frames with
  | nil =>
    have none : arrived = [] := by simp_all
    simp [none] at header
    omega
  | cons frame later =>
    have size := framing.size_front arrived behind header
    have first := size_of_frame (proper frame List.mem_cons_self) later.flatten
    simp only [List.flatten_cons] at sent
    exact ⟨frame, later, rfl, by rw [← size, sent, first]⟩

theorem Cut.wait {rest : List A} (waits : framing.Waits rest) : framing.Cut rest [] rest :=
  ⟨by simp, by simp, waits⟩

theorem Cut.cons {frame behind rest : List A} {frames : List (List A)} (proper : framing.IsFrame frame)
    (cut : framing.Cut behind frames rest) : framing.Cut (frame ++ behind) (frame :: frames) rest where
  proper := by simpa using ⟨proper, cut.proper⟩
  whole := by simp [cut.whole]
  waits := cut.waits

theorem Cut.append {arrived behind rest later : List A} {frames more : List (List A)}
    (cut : framing.Cut arrived frames rest) (next : framing.Cut (rest ++ behind) more later) :
    framing.Cut (arrived ++ behind) (frames ++ more) later where
  proper frame member := (List.mem_append.mp member).elim (cut.proper frame) (next.proper frame)
  whole := by simp [cut.whole, next.whole]
  waits := next.waits

def arrived {M : Type} (size : M → Nat) : List M → Nat → List M
  | [], _ => []
  | message :: later, count => if size message ≤ count then message :: arrived size later (count - size message) else []

theorem arrived_all {M : Type} (size : M → Nat) {messages : List M} {count : Nat}
    (enough : (messages.map size).sum ≤ count) : arrived size messages count = messages := by
  induction messages generalizing count with
  | nil => rfl
  | cons message later ih =>
    simp only [List.map_cons, List.sum_cons] at enough
    simp [arrived, show size message ≤ count by omega, ih (Nat.le_sub_of_add_le' enough)]

theorem arrived_map {M N : Type} (size : N → Nat) (form : M → N) (messages : List M) (count : Nat) :
    arrived size (messages.map form) count =
      (arrived (fun message => size (form message)) messages count).map form := by
  induction messages generalizing count with
  | nil => rfl
  | cons message later ih => by_cases fits : size (form message) ≤ count <;> simp [arrived, fits, ih]

theorem arrived_prefix {M : Type} (size : M → Nat) (messages : List M) (count : Nat) :
    arrived size messages count <+: messages := by
  induction messages generalizing count with
  | nil => simp [arrived]
  | cons message later ih => by_cases fits : size message ≤ count <;> simp [arrived, fits, ih]

theorem arrived_wait {M : Type} (size : M → Nat) (messages : List M) {count : Nat}
    (short : ∀ message ∈ messages.head?, count < size message) : arrived size messages count = [] := by
  cases messages with
  | nil => rfl
  | cons message later => simpa [arrived] using short

theorem Waits.arrived {all : List (List A)} (proper : ∀ frame ∈ all, framing.IsFrame frame)
    (some : 0 < framing.header) {rest behind : List A} (waits : framing.Waits rest)
    (sent : rest ++ behind = all.flatten) : arrived List.length all rest.length = [] := by
  apply arrived_wait
  intro frame first
  cases waits with
  | inl short => exact Nat.lt_trans short (proper frame (List.mem_of_mem_head? first)).longer
  | inr waits =>
    obtain ⟨next, later, same, size⟩ := size_on_the_way proper sent some waits.1
    obtain rfl : next = frame := by simpa [same] using first
    exact size ▸ waits.2

theorem Cut.arrived_eq {all : List (List A)} (proper : ∀ frame ∈ all, framing.IsFrame frame)
    (some : 0 < framing.header) {front behind rest : List A} {frames : List (List A)}
    (cut : framing.Cut front frames rest) (sent : front ++ behind = all.flatten) :
    frames = arrived List.length all front.length ∧
      rest ++ behind = (all.drop frames.length).flatten := by
  obtain ⟨frameProper, whole, waits⟩ := cut
  subst whole
  induction frames generalizing all with
  | nil =>
    simp only [List.flatten_nil, List.nil_append] at sent
    simpa [waits.arrived proper some sent] using sent
  | cons frame frames ih =>
    have first := frameProper frame List.mem_cons_self
    simp only [List.flatten_cons, List.append_assoc] at sent
    obtain ⟨next, later, rfl, size⟩ := size_on_the_way proper sent some (Nat.le_of_lt first.longer)
    have same : frame.length = next.length := first.announced ▸ size
    obtain ⟨rfl, tail⟩ := List.append_inj sent same
    obtain ⟨frames_eq, left⟩ := ih (fun frame member => proper frame (List.mem_cons_of_mem _ member))
      (fun frame member => frameProper frame (List.mem_cons_of_mem _ member)) (by simpa using tail)
    refine ⟨?_, left⟩
    simpa [Framing.arrived, Nat.add_assoc] using frames_eq

end Framing

end CcspCommon.Shared
