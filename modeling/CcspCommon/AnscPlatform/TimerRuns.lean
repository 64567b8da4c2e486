import CcspCommon.AnscPlatform.Timer

set_option autoImplicit false

namespace CcspCommon.AnscPlatform

open CcspCommon.Shared

/-- The sections that hold `g_TimerQueueLock`; a callback is any sequence of sections in between. -/
inductive LockedSection (P : Type)
  | elapse (milliseconds : Nat)
  | configure (timer : P) (interval : Nat) (periodic : Bool)
  -- the tick is read some milliseconds before the lock is acquired
  | registerTimer (timer : P) (ago : Nat)
  | cancelTimer (timer : P)
  -- one turn of a scheduler task, of which there may be several
  | check (pFreshTimer : Option P)

def LockedSection.Registers {P : Type} (timer : P) : LockedSection P → Prop
  | .registerTimer other _ => other = timer
  | _ => False

namespace Scheduler

section Model

variable {P : Type} [DecidableEq P]

def selected (s : Scheduler P) (pFreshTimer : Option P) : Option P :=
  match s.timerQueue with
  | [] => none
  | first :: _ =>
    if some first = pFreshTimer then none
    else if fires (s.timers first) s.tick then some first
    else none

def checkTimers (s : Scheduler P) (pFreshTimer : Option P) : Scheduler P :=
  match s.timerQueue with
  | [] => s
  | first :: _ => if some first = pFreshTimer then s else s.fireFirst

def registerTimerAgo (s : Scheduler P) (timer : P) (ago : Nat) : Scheduler P :=
  { { s with clock := s.clock - ago }.registerTimer timer with clock := s.clock }

def sectionStep (s : Scheduler P) : LockedSection P → Option (Scheduler P)
  | .elapse milliseconds => some { s with clock := s.clock + milliseconds }
  | .configure timer interval periodic =>
    some (s.setTimer timer { s.timers timer with interval := interval, periodic := periodic })
  | .registerTimer timer ago => some (s.registerTimerAgo timer ago)
  | .cancelTimer timer => some (s.cancelTimer timer)
  | .check pFreshTimer => some (s.checkTimers pFreshTimer)

omit [DecidableEq P] in
def SettledTimers (s : Scheduler P) : LockedSection P → Prop
  | .configure timer interval _ => (s.timers timer).bScheduled = false ∧ interval < 4294967296
  | _ => True

end Model

section Invariant

variable {P : Type} [DecidableEq P]

structure Armed (timer : Timer) : Prop where
  tick : timer.timestamp < 4294967296
  timeToFire : timer.timeToFire = wrap (timer.timestamp + timer.interval)

structure Loose (s : Scheduler P) (timer : P) : Prop where
  absent : timer ∉ s.timerQueue
  nodup : s.timerQueue.Nodup
  scheduled : ∀ other, other ≠ timer → (other ∈ s.timerQueue ↔ (s.timers other).bScheduled = true)
  narrow : ∀ other, (s.timers other).interval < 4294967296
  armed : ∀ other ∈ s.timerQueue, Armed (s.timers other)

structure Linked (s : Scheduler P) : Prop where
  nodup : s.timerQueue.Nodup
  scheduled : ∀ other, other ∈ s.timerQueue ↔ (s.timers other).bScheduled = true
  narrow : ∀ other, (s.timers other).interval < 4294967296
  armed : ∀ other ∈ s.timerQueue, Armed (s.timers other)

variable {s : Scheduler P} {timer : P}

omit [DecidableEq P] in
theorem Linked.atClock (linked : s.Linked) (clock : Nat) : ({ s with clock := clock } : Scheduler P).Linked :=
  ⟨linked.nodup, linked.scheduled, linked.narrow, linked.armed⟩

omit [DecidableEq P] in
theorem Linked.absent (linked : s.Linked) (idle : (s.timers timer).bScheduled = false) : timer ∉ s.timerQueue := by
  rw [linked.scheduled timer, idle]
  exact Bool.false_ne_true

omit [DecidableEq P] in
theorem Linked.loose (linked : s.Linked) (idle : (s.timers timer).bScheduled = false) : s.Loose timer :=
  ⟨linked.absent idle, linked.nodup, fun other _ => linked.scheduled other, linked.narrow, linked.armed⟩

theorem Linked.unlinkTimer (linked : s.Linked) (timer : P) : (s.unlinkTimer timer).Loose timer := by
  have queue : (s.unlinkTimer timer).timerQueue = s.timerQueue.erase timer := rfl
  constructor
  next => exact linked.nodup.not_mem_erase
  next => exact linked.nodup.erase timer
  next =>
    intro other differs
    rw [queue, List.mem_erase_of_ne differs]
    exact linked.scheduled other
  next => exact linked.narrow
  next =>
    intro other member
    exact linked.armed other (List.mem_of_mem_erase member)

theorem Loose.setTimer (loose : s.Loose timer) {value : Timer} (idle : value.bScheduled = false)
    (narrow : value.interval < 4294967296) : (s.setTimer timer value).Linked := by
  have own : (s.setTimer timer value).timers timer = value := by
    simp [Scheduler.setTimer]
  have others {other : P} (differs : other ≠ timer) : (s.setTimer timer value).timers other = s.timers other := by
    simp [Scheduler.setTimer, differs]
  have queue : (s.setTimer timer value).timerQueue = s.timerQueue := rfl
  constructor
  next => exact loose.nodup
  next =>
    intro other
    by_cases same : other = timer
    · rw [same, own, queue, idle]
      simp [loose.absent]
    · rw [others same]
      exact loose.scheduled other same
  next =>
    intro other
    by_cases same : other = timer
    · rw [same, own]
      exact narrow
    · rw [others same]
      exact loose.narrow other
  next =>
    intro other member
    have differs : other ≠ timer := by
      rintro rfl
      exact loose.absent member
    rw [others differs]
    exact loose.armed other member

theorem Loose.startTimer (loose : s.Loose timer) : (s.startTimer timer).Linked := by
  have started := startTimer_mem loose.absent
  constructor
  next => exact startTimer_nodup loose.absent loose.nodup
  next =>
    intro other
    rw [started]
    by_cases same : other = timer
    · simp [same, startTimer_self]
    · rw [startTimer_other s same]
      simpa [same] using loose.scheduled other same
  next =>
    intro other
    by_cases same : other = timer
    · rw [same, startTimer_self]
      exact loose.narrow timer
    · rw [startTimer_other s same]
      exact loose.narrow other
  next =>
    intro other member
    by_cases same : other = timer
    · rw [same, startTimer_self]
      exact ⟨Nat.mod_lt _ (by decide), rfl⟩
    · rw [startTimer_other s same]
      exact loose.armed other (((started other).mp member).resolve_left same)

theorem Linked.registerTimer (linked : s.Linked) (timer : P) : (s.registerTimer timer).Linked := by
  by_cases waiting : (s.timers timer).bScheduled = true
  · rw [Scheduler.registerTimer, if_pos waiting]
    exact linked
  · rw [Scheduler.registerTimer, if_neg waiting]
    exact (linked.loose (by simpa using waiting)).startTimer

theorem Linked.cancelTimer (linked : s.Linked) (timer : P) : (s.cancelTimer timer).Linked := by
  by_cases waiting : (s.timers timer).bScheduled = true
  · rw [Scheduler.cancelTimer, if_pos waiting]
    exact (linked.unlinkTimer timer).setTimer rfl (linked.narrow timer)
  · rw [Scheduler.cancelTimer, if_neg waiting]
    exact linked

theorem Linked.fireFirst (linked : s.Linked) : s.fireFirst.Linked := by
  rw [Scheduler.fireFirst]
  cases s.timerQueue with
  | nil => exact linked
  | cons first rest =>
    dsimp only
    by_cases due : fires (s.timers first) s.tick = true
    · rw [if_pos due]
      have loose := linked.unlinkTimer first
      by_cases again : ((s.unlinkTimer first).timers first).periodic = true
      · rw [if_pos again]
        exact loose.startTimer
      · rw [if_neg again]
        exact loose.setTimer rfl (linked.narrow first)
    · rw [if_neg due]
      exact linked

theorem Linked.checkTimers (linked : s.Linked) (pFreshTimer : Option P) : (s.checkTimers pFreshTimer).Linked := by
  rw [Scheduler.checkTimers]
  cases s.timerQueue with
  | nil => exact linked
  | cons first rest =>
    by_cases fresh : some first = pFreshTimer
    · simp only [fresh, if_true]
      exact linked
    · simp only [fresh, if_false]
      exact linked.fireFirst

theorem Linked.sectionStep (linked : s.Linked) {action : LockedSection P} (settled : s.SettledTimers action)
    {t : Scheduler P} (stepped : s.sectionStep action = some t) : t.Linked := by
  cases action with
  | elapse milliseconds =>
    cases stepped
    exact linked.atClock _
  | configure timer interval periodic =>
    cases stepped
    exact (linked.loose settled.1).setTimer settled.1 settled.2
  | registerTimer timer ago =>
    cases stepped
    exact ((linked.atClock (s.clock - ago)).registerTimer timer).atClock s.clock
  | cancelTimer timer =>
    cases stepped
    exact linked.cancelTimer timer
  | check pFreshTimer =>
    cases stepped
    exact linked.checkTimers pFreshTimer

end Invariant

section Selection

variable {P : Type} [DecidableEq P] {s : Scheduler P} {timer : P}

theorem selected_first {pFreshTimer : Option P} (selects : s.selected pFreshTimer = some timer) :
    (∃ rest, s.timerQueue = timer :: rest) ∧ some timer ≠ pFreshTimer ∧ fires (s.timers timer) s.tick = true := by
  rw [selected] at selects
  cases queue : s.timerQueue with
  | nil =>
    rw [queue] at selects
    cases selects
  | cons first rest =>
    rw [queue] at selects
    dsimp only at selects
    split_ifs at selects with fresh due
    cases selects
    exact ⟨⟨rest, rfl⟩, fresh, due⟩

theorem not_selected (absent : timer ∉ s.timerQueue) (pFreshTimer : Option P) :
    s.selected pFreshTimer ≠ some timer := by
  intro selects
  obtain ⟨⟨rest, queue⟩, -, -⟩ := selected_first selects
  rw [queue] at absent
  exact absent List.mem_cons_self

theorem Armed.late {timer : Timer} (armed : Armed timer) (narrow : timer.interval < 4294967296) {clock : Nat}
    (due : fires timer (wrap clock) = true) {stamp : Nat} (past : stamp ≤ clock) (shown : wrap stamp = timer.timestamp)
    (recent : clock - stamp < 4294967296) : timer.interval ≤ clock - stamp := by
  obtain ⟨-, timeToFire⟩ := armed
  rw [fires, timeToFire, ← shown] at due
  unfold wrap at due
  split_ifs at due <;> simp only [Bool.and_eq_true, decide_eq_true_eq] at * <;> omega

theorem absent_startTimer {other : P} (absent : timer ∉ s.timerQueue) (differs : other ≠ timer)
    (free : other ∉ s.timerQueue) : timer ∉ (s.startTimer other).timerQueue := by
  rw [startTimer_mem free]
  rintro (rfl | member)
  · exact differs rfl
  · exact absent member

theorem absent_unlinkTimer (absent : timer ∉ s.timerQueue) (other : P) :
    timer ∉ (s.unlinkTimer other).timerQueue :=
  fun member => absent (List.mem_of_mem_erase member)

theorem Linked.absent_fireFirst (linked : s.Linked) (absent : timer ∉ s.timerQueue) :
    timer ∉ s.fireFirst.timerQueue := by
  rw [Scheduler.fireFirst]
  cases queue : s.timerQueue with
  | nil => exact absent
  | cons first rest =>
    have differs : first ≠ timer := by
      rintro rfl
      rw [queue] at absent
      exact absent List.mem_cons_self
    have unlinked := absent_unlinkTimer absent first
    dsimp only
    by_cases due : fires (s.timers first) s.tick = true
    · rw [if_pos due]
      by_cases again : ((s.unlinkTimer first).timers first).periodic = true
      · rw [if_pos again]
        exact absent_startTimer unlinked differs (linked.unlinkTimer first).absent
      · rw [if_neg again]
        exact unlinked
    · rw [if_neg due]
      exact absent

theorem Linked.absent_sectionStep (linked : s.Linked) (absent : timer ∉ s.timerQueue) {action : LockedSection P}
    (other : ¬ action.Registers timer) {t : Scheduler P} (stepped : s.sectionStep action = some t) :
    timer ∉ t.timerQueue := by
  cases action with
  | elapse | configure =>
    cases stepped
    exact absent
  | registerTimer registered ago =>
    cases stepped
    rw [Scheduler.registerTimerAgo, Scheduler.registerTimer]
    by_cases waiting : (s.timers registered).bScheduled = true
    · rw [if_pos waiting]
      exact absent
    · rw [if_neg waiting]
      exact absent_startTimer absent other (linked.absent (by simpa using waiting))
  | cancelTimer cancelled =>
    cases stepped
    rw [Scheduler.cancelTimer]
    by_cases waiting : (s.timers cancelled).bScheduled = true
    · rw [if_pos waiting]
      exact absent_unlinkTimer absent cancelled
    · rw [if_neg waiting]
      exact absent
  | check pFreshTimer =>
    cases stepped
    rw [Scheduler.checkTimers]
    cases s.timerQueue with
    | nil => exact absent
    | cons first rest =>
      by_cases fresh : some first = pFreshTimer
      · simp only [fresh, if_true]
        exact absent
      · simp only [fresh, if_false]
        exact linked.absent_fireFirst absent

theorem Linked.out_not_selected {t : Scheduler P} (linked : s.Linked) (absent : timer ∉ s.timerQueue)
    (later : Reachable Scheduler.sectionStep (fun s action => s.SettledTimers action ∧ ¬ action.Registers timer) s t)
    (pFreshTimer : Option P) : t.selected pFreshTimer ≠ some timer := by
  have stays : t.Linked ∧ timer ∉ t.timerQueue := by
    induction later with
    | start => exact ⟨linked, absent⟩
    | next _ allowed stepped ih =>
      obtain ⟨linked, absent⟩ := ih
      exact ⟨linked.sectionStep allowed.1 stepped, linked.absent_sectionStep absent allowed.2 stepped⟩
  exact not_selected stays.2 pFreshTimer

theorem Linked.cancelTimer_absent (linked : s.Linked) (timer : P) : timer ∉ (s.cancelTimer timer).timerQueue := by
  by_cases waiting : (s.timers timer).bScheduled = true
  · rw [Scheduler.cancelTimer, if_pos waiting]
    exact (linked.unlinkTimer timer).absent
  · rw [Scheduler.cancelTimer, if_neg waiting]
    exact linked.absent (by simpa using waiting)

theorem Linked.once_absent (linked : s.Linked) {pFreshTimer : Option P}
    (selects : s.selected pFreshTimer = some timer) (once : (s.timers timer).periodic = false) :
    timer ∉ (s.checkTimers pFreshTimer).timerQueue := by
  obtain ⟨⟨rest, queue⟩, notFresh, due⟩ := selected_first selects
  have unchanged : ((s.unlinkTimer timer).timers timer).periodic = false := once
  rw [Scheduler.checkTimers, queue]
  simp only [notFresh, if_false]
  rw [Scheduler.fireFirst, queue]
  simp only [due, if_true, unchanged]
  exact (linked.unlinkTimer timer).absent

end Selection

section Runs

variable {P : Type} [DecidableEq P]

structure Idle (s : Scheduler P) : Prop where
  empty : s.timerQueue = []
  idle : ∀ timer, (s.timers timer).bScheduled = false
  narrow : ∀ timer, (s.timers timer).interval < 4294967296

omit [DecidableEq P] in
theorem Idle.linked {s : Scheduler P} (idle : s.Idle) : s.Linked := by
  constructor
  next => simp [idle.empty]
  next =>
    intro other
    simp [idle.empty, idle.idle other]
  next => exact idle.narrow
  next => simp [idle.empty]

structure WellTimed (s : Scheduler P) : Prop where
  linked : ∀ timer, (s.timers timer).bScheduled = true ↔ timer ∈ s.timerQueue
  linkedOnce : s.timerQueue.Nodup
  notEarly : ∀ pFreshTimer timer, s.selected pFreshTimer = some timer → ∀ stamp ≤ s.clock,
    wrap stamp = (s.timers timer).timestamp → s.clock - stamp < 4294967296 →
      (s.timers timer).interval ≤ s.clock - stamp
  once : ∀ pFreshTimer timer, s.selected pFreshTimer = some timer → (s.timers timer).periodic = false → ∀ t,
    Reachable Scheduler.sectionStep (fun s action => s.SettledTimers action ∧ ¬ action.Registers timer)
      (s.checkTimers pFreshTimer) t → ∀ pFreshTimer', t.selected pFreshTimer' ≠ some timer
  cancelled : ∀ timer t,
    Reachable Scheduler.sectionStep (fun s action => s.SettledTimers action ∧ ¬ action.Registers timer)
      (s.cancelTimer timer) t → ∀ pFreshTimer, t.selected pFreshTimer ≠ some timer

theorem Linked.wellTimed {s : Scheduler P} (linked : s.Linked) : s.WellTimed := by
  constructor
  next => exact fun timer => (linked.scheduled timer).symm
  next => exact linked.nodup
  next =>
    intro pFreshTimer timer selects stamp past shown recent
    obtain ⟨⟨rest, queue⟩, -, due⟩ := selected_first selects
    have waiting : timer ∈ s.timerQueue := queue ▸ List.mem_cons_self
    exact (linked.armed timer waiting).late (linked.narrow timer) due past shown recent
  next =>
    intro pFreshTimer timer selects oneShot t later
    exact (linked.checkTimers pFreshTimer).out_not_selected (linked.once_absent selects oneShot) later
  next =>
    intro timer t later
    exact (linked.cancelTimer timer).out_not_selected (linked.cancelTimer_absent timer) later

theorem timers_wellTimed {start s : Scheduler P} (idle : start.Idle)
    (reached : Reachable Scheduler.sectionStep SettledTimers start s) : s.WellTimed := by
  have linked : s.Linked :=
    reached.invariant idle.linked fun _ _ _ linked settled stepped => linked.sectionStep settled stepped
  exact linked.wellTimed

theorem timers_wellTimed_across_wrap :
    ∃ s, runAll sectionStep twoTimers [.registerTimer 0 5, .elapse 150, .check none, .elapse 50] = some s ∧
      s.selected none = some 0 ∧ s.WellTimed := by
  have idle : twoTimers.Idle := by
    refine ⟨rfl, fun _ => rfl, ?_⟩
    intro timer
    change 200 + 100 * (timer % 2) < 4294967296
    omega
  have ready : Reachable Scheduler.sectionStep SettledTimers twoTimers twoTimers := .start
  have registered := ready.via (.registerTimer 0 5) trivial rfl
  have early := (registered.via (.elapse 150) trivial rfl).via (.check none) trivial rfl
  have late := early.via (.elapse 50) trivial rfl
  exact ⟨_, rfl, by decide, timers_wellTimed idle late⟩

end Runs

end Scheduler

end CcspCommon.AnscPlatform
