import CcspCommon.AnscPlatform.Queue
import CcspCommon.Shared.Run

set_option autoImplicit false

namespace CcspCommon.AnscPlatform

open CcspCommon.Shared

section Model

structure Timer where
  timestamp : Nat
  interval : Nat
  timeToFire : Nat
  bScheduled : Bool
  periodic : Bool
  deriving DecidableEq

-- A tick in milliseconds, which wraps around in 49.7 days.
def wrap (n : Nat) : Nat := n % 4294967296

variable {P : Type} [DecidableEq P]

structure Scheduler (P : Type) where
  -- the time that `AnscGetTickInMilliSeconds` shows modulo 2^32
  clock : Nat
  timers : P → Timer
  -- the time at which the timestamp was taken
  since : P → Nat
  timerQueue : List P
  schedulingUnit : Nat

namespace Scheduler

def tick (s : Scheduler P) : Nat := wrap s.clock

def setTimer (s : Scheduler P) (timer : P) (value : Timer) : Scheduler P :=
  { s with timers := Function.update s.timers timer value }

def comesFirst (cur : Timer) (timeToFire : Nat) : Bool :=
  if cur.timestamp < cur.timeToFire then
    (timeToFire < cur.timestamp && timeToFire < cur.timeToFire) ||
      (timeToFire ≥ cur.timestamp && timeToFire ≥ cur.timeToFire)
  else timeToFire < cur.timestamp && timeToFire ≥ cur.timeToFire

def findLater (timers : P → Timer) (timeToFire : Nat) : List P → Option P
  | [] => none
  | cur :: rest => if comesFirst (timers cur) timeToFire then findLater timers timeToFire rest else some cur

def scheduleTimer (s : Scheduler P) (timer : P) : Scheduler P :=
  let queue := match findLater s.timers (s.timers timer).timeToFire s.timerQueue with
    | some cur => (queueStep s.timerQueue (.pushEntryBefore timer (some cur))).1
    | none => (queueStep s.timerQueue (.pushEntry timer)).1
  let ulTimeSlice := (s.timers timer).interval / 5
  { s with
    timerQueue := queue
    schedulingUnit := if ulTimeSlice < s.schedulingUnit then max 10 ulTimeSlice else s.schedulingUnit }

def startTimer (s : Scheduler P) (timer : P) : Scheduler P :=
  let stamped : Timer := { s.timers timer with
    timestamp := s.tick
    bScheduled := true
    timeToFire := wrap (s.tick + (s.timers timer).interval) }
  let s := { s.setTimer timer stamped with since := Function.update s.since timer s.clock }
  s.scheduleTimer timer

def registerTimer (s : Scheduler P) (timer : P) : Scheduler P :=
  if (s.timers timer).bScheduled then s else s.startTimer timer

def unlinkTimer (s : Scheduler P) (timer : P) : Scheduler P :=
  { s with timerQueue := (queueStep s.timerQueue (.popEntryByLink timer)).1 }

def clearScheduled (s : Scheduler P) (timer : P) : Scheduler P :=
  s.setTimer timer { s.timers timer with bScheduled := false }

def cancelTimer (s : Scheduler P) (timer : P) : Scheduler P :=
  if (s.timers timer).bScheduled then (s.unlinkTimer timer).clearScheduled timer else s

def fires (timer : Timer) (tick : Nat) : Bool :=
  if timer.timestamp < timer.timeToFire then
    if tick < timer.timestamp && tick < timer.timeToFire then true
    else tick ≥ timer.timestamp && tick ≥ timer.timeToFire
  else if timer.timestamp = timer.timeToFire then true
  else tick < timer.timestamp && tick ≥ timer.timeToFire

def fireFirst (s : Scheduler P) : Scheduler P :=
  match s.timerQueue with
  | [] => s
  | first :: _ =>
    if fires (s.timers first) s.tick then
      let s := s.unlinkTimer first
      if (s.timers first).periodic then s.startTimer first else s.clearScheduled first
    else s

end Scheduler

inductive TimerStep (P : Type)
  | elapse (milliseconds : Nat)
  | configure (timer : P) (interval : Nat) (periodic : Bool)
  | registerTimer (timer : P)
  | cancelTimer (timer : P)
  | fireFirst

def Scheduler.step (s : Scheduler P) : TimerStep P → Option (Scheduler P)
  | .elapse milliseconds => some { s with clock := s.clock + milliseconds }
  | .configure timer interval periodic =>
    some (s.setTimer timer { s.timers timer with interval := interval, periodic := periodic })
  | .registerTimer timer => some (s.registerTimer timer)
  | .cancelTimer timer => some (s.cancelTimer timer)
  | .fireFirst => some s.fireFirst

end Model

section Order

variable {P : Type} [DecidableEq P]

namespace Scheduler

def remaining (s : Scheduler P) (timer : P) : Int :=
  Int.bmod ((s.timers timer).timeToFire - s.tick) 4294967296

def Sorted (s : Scheduler P) : Prop := s.timerQueue.Pairwise fun a b => s.remaining a ≤ s.remaining b

instance (s : Scheduler P) : Decidable s.Sorted := inferInstanceAs (Decidable (List.Pairwise _ _))

def DueFirst (s : Scheduler P) : Prop :=
  s.timerQueue.Pairwise fun a b => fires (s.timers b) s.tick = true → fires (s.timers a) s.tick = true

structure Fresh (s : Scheduler P) : Prop where
  empty : s.timerQueue = []
  idle : ∀ timer, (s.timers timer).bScheduled = false
  short : ∀ timer, (s.timers timer).interval < 2147483648

/-- Intervals stay below 2^31, no timer waits for 2^31 milliseconds, and the settings of a timer are
made while it is not scheduled. -/
def InTime (s : Scheduler P) : TimerStep P → Prop
  | .elapse milliseconds => ∀ timer ∈ s.timerQueue, s.clock + milliseconds - s.since timer < 2147483648
  | .configure timer interval _ => (s.timers timer).bScheduled = false ∧ interval < 2147483648
  | _ => True

def NoZeroWaits (s : Scheduler P) (queue : List P) (timer : P) : Prop :=
  ∀ cur ∈ queue, (s.timers cur).interval = 0 → (s.timers cur).timeToFire = wrap (s.tick + (s.timers timer).interval)

instance (s : Scheduler P) (queue : List P) (timer : P) : Decidable (s.NoZeroWaits queue timer) :=
  inferInstanceAs (Decidable (∀ _ ∈ queue, _))

def KeepsOrder (s : Scheduler P) : TimerStep P → Prop
  | .registerTimer timer => (s.timers timer).bScheduled = false → s.NoZeroWaits s.timerQueue timer
  | .fireFirst => ∀ first rest, s.timerQueue = first :: rest → fires (s.timers first) s.tick = true →
      (s.timers first).periodic = true → s.NoZeroWaits rest first
  | _ => True

def deadline (s : Scheduler P) (timer : P) : Nat := s.since timer + (s.timers timer).interval

structure Stamped (s : Scheduler P) (timer : P) : Prop where
  timestamp : (s.timers timer).timestamp = wrap (s.since timer)
  timeToFire : (s.timers timer).timeToFire = wrap (s.deadline timer)
  past : s.since timer ≤ s.clock
  recent : s.clock < s.since timer + 2147483648
  short : (s.timers timer).interval < 2147483648

omit [DecidableEq P] in
theorem Stamped.congr {s t : Scheduler P} {timer : P} (stamped : s.Stamped timer)
    (same : t.timers timer = s.timers timer) (since : t.since timer = s.since timer) (clock : t.clock = s.clock) :
    t.Stamped timer := by
  obtain ⟨timestamp, timeToFire, past, recent, short⟩ := stamped
  rw [deadline] at timeToFire
  constructor
  next => rw [same, since, timestamp]
  next => rw [deadline, same, since, timeToFire]
  next => rw [since, clock]; exact past
  next => rw [since, clock]; exact recent
  next => rw [same]; exact short

section Ticks

variable {s : Scheduler P} {timer : P} (stamped : s.Stamped timer)

include stamped

omit [DecidableEq P] in
theorem Stamped.remaining_eq : s.remaining timer = s.deadline timer - s.clock := by
  obtain ⟨-, timeToFire, past, recent, short⟩ := stamped
  rw [deadline] at timeToFire
  rw [remaining, timeToFire, tick, Int.bmod, wrap, wrap, deadline]
  split_ifs <;> omega

omit [DecidableEq P] in
theorem Stamped.fires_iff : fires (s.timers timer) s.tick = true ↔ s.deadline timer ≤ s.clock := by
  obtain ⟨timestamp, timeToFire, past, recent, short⟩ := stamped
  rw [deadline] at timeToFire ⊢
  rw [fires, timestamp, timeToFire, tick]
  unfold wrap
  split_ifs
  all_goals simp only [Bool.and_eq_true, decide_eq_true_eq, true_iff] at *
  all_goals omega

omit [DecidableEq P] in
theorem Stamped.comesFirst_iff (positive : 0 < (s.timers timer).interval) {interval : Nat}
    (small : interval < 2147483648) :
    comesFirst (s.timers timer) (wrap (s.tick + interval)) = true ↔ s.deadline timer ≤ s.clock + interval := by
  obtain ⟨timestamp, timeToFire, past, recent, short⟩ := stamped
  rw [deadline] at timeToFire ⊢
  rw [comesFirst, timestamp, timeToFire, tick]
  unfold wrap
  split_ifs
  all_goals simp only [Bool.and_eq_true, Bool.or_eq_true, decide_eq_true_eq]
  all_goals omega

omit [DecidableEq P] in
theorem Stamped.comesFirst_zero (zero : (s.timers timer).interval = 0) (timeToFire : Nat) :
    comesFirst (s.timers timer) timeToFire = false := by
  obtain ⟨timestamp, fire, -, -, -⟩ := stamped
  rw [deadline, zero, Nat.add_zero] at fire
  rw [comesFirst, timestamp, fire, if_neg (Nat.lt_irrefl _)]
  simp only [Bool.and_eq_false_iff, decide_eq_false_iff_not]
  omega

omit [DecidableEq P] in
theorem Stamped.deadline_of_same (zero : (s.timers timer).interval = 0) {interval : Nat}
    (small : interval < 2147483648) (same : (s.timers timer).timeToFire = wrap (s.tick + interval)) :
    s.deadline timer = s.clock + interval := by
  obtain ⟨-, timeToFire, past, recent, -⟩ := stamped
  rw [deadline, zero] at timeToFire
  rw [timeToFire, tick] at same
  unfold wrap at same
  rw [deadline, zero]
  omega

end Ticks

section Placement

omit [DecidableEq P] in
theorem findLater_cases (timers : P → Timer) (timeToFire : Nat) (queue : List P) :
    (findLater timers timeToFire queue = none ∧ ∀ cur ∈ queue, comesFirst (timers cur) timeToFire = true) ∨
    ∃ first cur second, findLater timers timeToFire queue = some cur ∧ queue = first ++ cur :: second ∧
      (∀ x ∈ first, comesFirst (timers x) timeToFire = true) ∧ comesFirst (timers cur) timeToFire = false := by
  induction queue with
  | nil => exact .inl ⟨rfl, by simp⟩
  | cons head rest ih =>
    by_cases passed : comesFirst (timers head) timeToFire = true
    · rw [findLater, if_pos passed]
      rcases ih with ⟨none, all⟩ | ⟨first, cur, second, found, rfl, before, stops⟩
      · exact .inl ⟨none, by simpa [passed] using all⟩
      · exact .inr ⟨head :: first, cur, second, found, rfl, by simpa [passed] using before, stops⟩
    · rw [findLater, if_neg passed]
      exact .inr ⟨[], head, rest, rfl, rfl, by simp, by simpa using passed⟩

theorem scheduleTimer_queue (s : Scheduler P) (timer : P) :
    ∃ first second, s.timerQueue = first ++ second ∧
      (s.scheduleTimer timer).timerQueue = first ++ timer :: second ∧
      (∀ x ∈ first, comesFirst (s.timers x) (s.timers timer).timeToFire = true) ∧
      ∀ x ∈ second.head?, comesFirst (s.timers x) (s.timers timer).timeToFire = false := by
  rcases findLater_cases s.timers (s.timers timer).timeToFire s.timerQueue with
    ⟨none, all⟩ | ⟨first, cur, second, found, whole, before, stops⟩
  · refine ⟨s.timerQueue, [], by simp, ?_, all, by simp⟩
    rw [scheduleTimer, none]
    rfl
  · refine ⟨first, cur :: second, whole, ?_, before, by simpa using stops⟩
    have absent : cur ∉ first := by
      intro member
      rw [before cur member] at stops
      cases stops
    rw [scheduleTimer, found, whole]
    exact insertBefore_split timer absent second

theorem startTimer_self (s : Scheduler P) (timer : P) :
    (s.startTimer timer).timers timer = { s.timers timer with
      timestamp := s.tick
      bScheduled := true
      timeToFire := wrap (s.tick + (s.timers timer).interval) } := by
  simp [startTimer, scheduleTimer, setTimer]

theorem startTimer_other (s : Scheduler P) {timer other : P} (differs : other ≠ timer) :
    (s.startTimer timer).timers other = s.timers other := by
  simp [startTimer, scheduleTimer, setTimer, differs]

theorem startTimer_since (s : Scheduler P) (timer : P) :
    (s.startTimer timer).since = Function.update s.since timer s.clock := rfl

theorem startTimer_queue {s : Scheduler P} {timer : P} (absent : timer ∉ s.timerQueue) :
    ∃ first second, s.timerQueue = first ++ second ∧
      (s.startTimer timer).timerQueue = first ++ timer :: second ∧
      (∀ x ∈ first, comesFirst (s.timers x) (wrap (s.tick + (s.timers timer).interval)) = true) ∧
      ∀ x ∈ second.head?, comesFirst (s.timers x) (wrap (s.tick + (s.timers timer).interval)) = false := by
  set started : Scheduler P := { s.setTimer timer { s.timers timer with
      timestamp := s.tick
      bScheduled := true
      timeToFire := wrap (s.tick + (s.timers timer).interval) } with
    since := Function.update s.since timer s.clock } with isStarted
  obtain ⟨first, second, whole, queue, before, stops⟩ := started.scheduleTimer_queue timer
  have queueSplit : s.timerQueue = first ++ second := whole
  have timeToFire : (started.timers timer).timeToFire = wrap (s.tick + (s.timers timer).interval) := by
    simp [isStarted, setTimer]
  have waiting {x : P} (member : x ∈ s.timerQueue) : started.timers x = s.timers x := by
    have differs : x ≠ timer := by
      rintro rfl
      exact absent member
    simp [isStarted, setTimer, differs]
  rw [timeToFire] at before stops
  refine ⟨first, second, queueSplit, queue, ?_, ?_⟩
  · intro x member
    rw [← waiting (queueSplit ▸ List.mem_append_left second member)]
    exact before x member
  · intro x isHead
    rw [← waiting (queueSplit ▸ List.mem_append_right first (List.mem_of_head? isHead))]
    exact stops x isHead

theorem startTimer_mem {s : Scheduler P} {timer : P} (absent : timer ∉ s.timerQueue) (other : P) :
    other ∈ (s.startTimer timer).timerQueue ↔ other = timer ∨ other ∈ s.timerQueue := by
  obtain ⟨first, second, whole, queue, -, -⟩ := startTimer_queue absent
  rw [queue, whole]
  simp only [List.mem_append, List.mem_cons]
  tauto

theorem startTimer_nodup {s : Scheduler P} {timer : P} (absent : timer ∉ s.timerQueue)
    (nodup : s.timerQueue.Nodup) : (s.startTimer timer).timerQueue.Nodup := by
  obtain ⟨first, second, whole, queue, -, -⟩ := startTimer_queue absent
  rw [queue, List.nodup_middle, List.nodup_cons, ← whole]
  exact ⟨absent, nodup⟩

omit [DecidableEq P] in
theorem pairwise_placed {le : P → P → Prop} (trans : ∀ a b c, le a b → le b c → le a c) {first second : List P}
    {timer : P} (sorted : (first ++ second).Pairwise le) (before : ∀ x ∈ first, le x timer)
    (behind : ∀ x ∈ second.head?, le timer x) : (first ++ timer :: second).Pairwise le := by
  have later : ∀ x ∈ second, le timer x := by
    cases second with
    | nil => simp
    | cons head rest =>
      have next : le timer head := behind head rfl
      intro x member
      rcases List.mem_cons.mp member with rfl | inRest
      · exact next
      · have ordered := (List.pairwise_cons.mp (List.pairwise_append.mp sorted).2.1).1 x inRest
        exact trans timer head x next ordered
  rw [List.pairwise_append] at sorted
  rw [List.pairwise_append, List.pairwise_cons]
  refine ⟨sorted.1, ⟨later, sorted.2.1⟩, ?_⟩
  intro x inFirst y member
  rcases List.mem_cons.mp member with rfl | inSecond
  · exact before x inFirst
  · exact sorted.2.2 x inFirst y inSecond

end Placement

section Invariant

structure Apart (s : Scheduler P) (timer : P) : Prop where
  absent : timer ∉ s.timerQueue
  nodup : s.timerQueue.Nodup
  scheduled : ∀ other, other ≠ timer → (other ∈ s.timerQueue ↔ (s.timers other).bScheduled = true)
  short : ∀ other, (s.timers other).interval < 2147483648
  stamped : ∀ other ∈ s.timerQueue, s.Stamped other
  sorted : s.timerQueue.Pairwise fun a b => s.deadline a ≤ s.deadline b

structure Ordered (s : Scheduler P) : Prop where
  nodup : s.timerQueue.Nodup
  scheduled : ∀ other, other ∈ s.timerQueue ↔ (s.timers other).bScheduled = true
  short : ∀ other, (s.timers other).interval < 2147483648
  stamped : ∀ other ∈ s.timerQueue, s.Stamped other
  sorted : s.timerQueue.Pairwise fun a b => s.deadline a ≤ s.deadline b

variable {s : Scheduler P} {timer : P}

omit [DecidableEq P] in
theorem Ordered.apart (ordered : s.Ordered) (idle : (s.timers timer).bScheduled = false) : s.Apart timer := by
  obtain ⟨nodup, scheduled, short, stamped, sorted⟩ := ordered
  have absent : timer ∉ s.timerQueue := by
    rw [scheduled timer, idle]
    exact Bool.false_ne_true
  exact ⟨absent, nodup, fun other _ => scheduled other, short, stamped, sorted⟩

theorem Ordered.unlinkTimer (ordered : s.Ordered) (timer : P) : (s.unlinkTimer timer).Apart timer := by
  obtain ⟨nodup, scheduled, short, stamped, sorted⟩ := ordered
  have queue : (s.unlinkTimer timer).timerQueue = s.timerQueue.erase timer := rfl
  constructor
  next => exact nodup.not_mem_erase
  next => exact nodup.erase timer
  next =>
    intro other differs
    rw [queue, List.mem_erase_of_ne differs]
    exact scheduled other
  next => exact short
  next =>
    intro other member
    exact (stamped other (List.mem_of_mem_erase member)).congr rfl rfl rfl
  next => exact sorted.sublist List.erase_sublist

theorem Apart.clearScheduled (apart : s.Apart timer) : (s.clearScheduled timer).Ordered := by
  obtain ⟨absent, nodup, scheduled, short, stamped, sorted⟩ := apart
  have interval (other : P) : ((s.clearScheduled timer).timers other).interval = (s.timers other).interval := by
    by_cases same : other = timer <;> simp [Scheduler.clearScheduled, setTimer, Function.update, same]
  have others {other : P} (differs : other ≠ timer) : (s.clearScheduled timer).timers other = s.timers other := by
    simp [Scheduler.clearScheduled, setTimer, differs]
  constructor
  next => exact nodup
  next =>
    intro other
    by_cases same : other = timer
    · rw [same]
      simpa [Scheduler.clearScheduled, setTimer] using absent
    · rw [others same]
      exact scheduled other same
  next =>
    intro other
    rw [interval]
    exact short other
  next =>
    intro other member
    have differs : other ≠ timer := by
      rintro rfl
      exact absent member
    exact (stamped other member).congr (others differs) rfl rfl
  next =>
    apply sorted.imp
    intro a b earlier
    rw [deadline, deadline, interval, interval]
    exact earlier

theorem Apart.startTimer (apart : s.Apart timer) (noZero : s.NoZeroWaits s.timerQueue timer) :
    (s.startTimer timer).Ordered := by
  obtain ⟨absent, nodup, scheduled, short, stamped, sorted⟩ := apart
  have inQueue {other : P} (member : other ∈ s.timerQueue) : other ≠ timer := by
    rintro rfl
    exact absent member
  have otherSince {other : P} (differs : other ≠ timer) : (s.startTimer timer).since other = s.since other := by
    rw [startTimer_since, Function.update_of_ne differs]
  have ownSince : (s.startTimer timer).since timer = s.clock := by
    rw [startTimer_since, Function.update_self]
  have newDeadline : (s.startTimer timer).deadline timer = s.clock + (s.timers timer).interval := by
    rw [deadline, ownSince, startTimer_self]
  have oldDeadline {other : P} (member : other ∈ s.timerQueue) :
      (s.startTimer timer).deadline other = s.deadline other := by
    rw [deadline, startTimer_other s (inQueue member), otherSince (inQueue member), deadline]
  constructor
  next => exact startTimer_nodup absent nodup
  next =>
    intro other
    rw [startTimer_mem absent]
    by_cases same : other = timer
    · simp [same, startTimer_self]
    · rw [startTimer_other s same]
      simpa [same] using scheduled other same
  next =>
    intro other
    by_cases same : other = timer
    · rw [same, startTimer_self]
      exact short timer
    · rw [startTimer_other s same]
      exact short other
  next =>
    intro other member
    rcases (startTimer_mem absent other).mp member with rfl | waiting
    · have clock : (s.startTimer other).clock = s.clock := rfl
      constructor
      next => rw [startTimer_self, ownSince, tick]
      next => rw [newDeadline, startTimer_self, tick, wrap, wrap, wrap, Nat.mod_add_mod]
      next => exact Nat.le_of_eq (ownSince.trans clock.symm)
      next =>
        rw [ownSince, clock]
        omega
      next =>
        rw [startTimer_self]
        exact short other
    · exact (stamped other waiting).congr (startTimer_other s (inQueue waiting)) (otherSince (inQueue waiting)) rfl
  next =>
    obtain ⟨first, second, whole, queue, before, stops⟩ := startTimer_queue absent
    rw [queue]
    have ordered : (first ++ second).Pairwise fun a b =>
        (s.startTimer timer).deadline a ≤ (s.startTimer timer).deadline b := by
      rw [← whole]
      apply sorted.imp_of_mem
      intro a b aWaits bWaits earlier
      rw [oldDeadline aWaits, oldDeadline bWaits]
      exact earlier
    refine pairwise_placed ?_ ordered ?_ ?_
    · intro a b c
      exact Nat.le_trans
    · intro x member
      have waits : x ∈ s.timerQueue := whole ▸ List.mem_append_left second member
      have passed := before x member
      have positive : 0 < (s.timers x).interval := by
        by_contra zero
        rw [(stamped x waits).comesFirst_zero (by omega)] at passed
        cases passed
      rw [oldDeadline waits, newDeadline]
      exact ((stamped x waits).comesFirst_iff positive (short timer)).mp passed
    · intro x isHead
      have waits : x ∈ s.timerQueue := whole ▸ List.mem_append_right first (List.mem_of_head? isHead)
      have stopped := stops x isHead
      rw [oldDeadline waits, newDeadline]
      by_cases zero : (s.timers x).interval = 0
      · exact Nat.le_of_eq ((stamped x waits).deadline_of_same zero (short timer) (noZero x waits zero)).symm
      · by_contra earlier
        have passed := ((stamped x waits).comesFirst_iff (by omega) (short timer)).mpr (by omega)
        rw [passed] at stopped
        cases stopped

theorem Ordered.step (ordered : s.Ordered) {action : TimerStep P} (inTime : s.InTime action)
    (keeps : s.KeepsOrder action) {t : Scheduler P} (stepped : s.step action = some t) : t.Ordered := by
  cases action with
  | elapse milliseconds =>
    cases stepped
    obtain ⟨nodup, scheduled, short, stamped, sorted⟩ := ordered
    refine ⟨nodup, scheduled, short, ?_, sorted⟩
    intro other member
    obtain ⟨timestamp, timeToFire, past, -, small⟩ := stamped other member
    have recent := inTime other member
    exact ⟨timestamp, timeToFire, by dsimp only; omega, by dsimp only; omega, small⟩
  | configure timer interval periodic =>
    cases stepped
    obtain ⟨idle, small⟩ := inTime
    have others {other : P} (differs : other ≠ timer) :
        (s.setTimer timer { s.timers timer with interval := interval, periodic := periodic }).timers other =
          s.timers other := by
      simp [setTimer, differs]
    obtain ⟨absent, nodup, scheduled, short, stamped, sorted⟩ := ordered.apart idle
    have inQueue {other : P} (member : other ∈ s.timerQueue) : other ≠ timer := by
      rintro rfl
      exact absent member
    constructor
    next => exact nodup
    next =>
      intro other
      by_cases same : other = timer
      · rw [same]
        simpa [setTimer, idle] using absent
      · rw [others same]
        exact scheduled other same
    next =>
      intro other
      by_cases same : other = timer
      · rw [same]
        simpa [setTimer] using small
      · rw [others same]
        exact short other
    next =>
      intro other member
      exact (stamped other member).congr (others (inQueue member)) rfl rfl
    next =>
      apply sorted.imp_of_mem
      intro a b aWaits bWaits earlier
      rw [deadline, deadline, others (inQueue aWaits), others (inQueue bWaits)]
      exact earlier
  | registerTimer timer =>
    cases stepped
    by_cases idle : (s.timers timer).bScheduled = true
    · rw [registerTimer, if_pos idle]
      exact ordered
    · rw [registerTimer, if_neg idle]
      have free : (s.timers timer).bScheduled = false := by simpa using idle
      exact (ordered.apart free).startTimer (keeps free)
  | cancelTimer timer =>
    cases stepped
    by_cases waiting : (s.timers timer).bScheduled = true
    · rw [cancelTimer, if_pos waiting]
      exact (ordered.unlinkTimer timer).clearScheduled
    · rw [cancelTimer, if_neg waiting]
      exact ordered
  | fireFirst =>
    cases stepped
    rw [fireFirst]
    cases queue : s.timerQueue with
    | nil => exact ordered
    | cons first rest =>
      dsimp only
      by_cases due : fires (s.timers first) s.tick = true
      · rw [if_pos due]
        have apart := ordered.unlinkTimer first
        by_cases again : ((s.unlinkTimer first).timers first).periodic = true
        · rw [if_pos again]
          have left : (s.unlinkTimer first).timerQueue = rest := by
            simp [Scheduler.unlinkTimer, queueStep, queue]
          have noZero := keeps first rest queue due again
          apply apart.startTimer
          rw [left]
          exact noZero
        · rw [if_neg again]
          exact apart.clearScheduled
      · rw [if_neg due]
        exact ordered

omit [DecidableEq P] in
theorem Fresh.ordered (fresh : s.Fresh) : s.Ordered := by
  obtain ⟨empty, idle, short⟩ := fresh
  refine ⟨by simp [empty], ?_, short, by simp [empty], by simp [empty]⟩
  intro other
  simp [empty, idle other]

omit [DecidableEq P] in
theorem Ordered.sorted_remaining (ordered : s.Ordered) : s.Sorted := by
  apply ordered.sorted.imp_of_mem
  intro a b aWaits bWaits earlier
  rw [(ordered.stamped a aWaits).remaining_eq, (ordered.stamped b bWaits).remaining_eq]
  omega

omit [DecidableEq P] in
theorem Ordered.dueFirst (ordered : s.Ordered) : s.DueFirst := by
  apply ordered.sorted.imp_of_mem
  intro a b aWaits bWaits earlier
  rw [(ordered.stamped a aWaits).fires_iff, (ordered.stamped b bWaits).fires_iff]
  omega

end Invariant

section Runs

theorem timerQueue_sorted {start s : Scheduler P} (fresh : start.Fresh)
    (reached : Reachable step (fun s action => s.InTime action ∧ s.KeepsOrder action) start s) :
    s.Sorted ∧ s.DueFirst := by
  have ordered : s.Ordered := by
    apply reached.invariant fresh.ordered
    intro s t action ordered allowed stepped
    exact ordered.step allowed.1 allowed.2 stepped
  exact ⟨ordered.sorted_remaining, ordered.dueFirst⟩

def idleTimers (intervals : Nat → Nat) : Scheduler Nat :=
  ⟨4294967000, fun timer => ⟨0, intervals timer, 0, false, false⟩, fun _ => 0, [], 1000⟩

def twoTimers : Scheduler Nat := idleTimers fun timer => 200 + 100 * (timer % 2)

theorem timerQueue_sorted_across_wrap :
    ∃ s, runAll step twoTimers [.registerTimer 1, .registerTimer 0, .elapse 250, .fireFirst] = some s ∧
      s.timerQueue = [1] ∧ s.Sorted ∧ s.DueFirst := by
  have fresh : twoTimers.Fresh := by
    refine ⟨rfl, fun _ => rfl, ?_⟩
    intro timer
    change 200 + 100 * (timer % 2) < 2147483648
    omega
  have ready : Reachable step (fun s action => s.InTime action ∧ s.KeepsOrder action) twoTimers twoTimers := .start
  have first := ready.via (.registerTimer 1) ⟨trivial, fun _ => by decide⟩ rfl
  have both := first.via (.registerTimer 0) ⟨trivial, fun _ => by decide⟩ rfl
  have recent : ((twoTimers.registerTimer 1).registerTimer 0).InTime (.elapse 250) := by
    change ∀ timer ∈ [0, 1], _
    decide
  have waited := both.via (.elapse 250) ⟨recent, trivial⟩ rfl
  have fired := waited.via .fireFirst ⟨trivial, ?_⟩ rfl
  · exact ⟨_, rfl, rfl, timerQueue_sorted fresh fired⟩
  · intro first rest queue _ periodic
    cases (queue : [0, 1] = first :: rest)
    exact absurd periodic (by decide)

theorem zero_interval_unsorted :
    ¬ ∀ (start s : Scheduler Nat), start.Fresh → Reachable step InTime start s → s.Sorted := by
  intro claimed
  have fresh : (idleTimers fun timer => 50 * timer % 2147483648).Fresh :=
    ⟨rfl, fun _ => rfl, fun timer => Nat.mod_lt _ (by decide)⟩
  have ready : Reachable step InTime (idleTimers fun timer => 50 * timer % 2147483648) _ := .start
  have first := ready.via (.registerTimer 0) trivial rfl
  have second := first.via (.registerTimer 1) trivial rfl
  have sorted := claimed _ _ fresh second
  exact absurd sorted (by decide)

end Runs

end Scheduler

end Order

end CcspCommon.AnscPlatform
