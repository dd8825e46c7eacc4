import Hexabus.Shared.Types

/-!
# Event timers

`etimer.c` and the event queue of `process.c`. A timer belongs to the process that put it
on the list (`PROCESS_CURRENT()`), and its expiry is posted to that process. A timer that
has expired belongs to no process until it is put on the list again, by whoever does so.
-/

namespace Hexabus.Firmware.Timing

/-- The processes of the firmware; the datetime service and the network process have names
of their own. -/
inductive Process
  | datetime | udpHandler | app (n : Nat)
  deriving DecidableEq, Repr

/-- The timers, static variables of the modules they belong to. -/
inductive TimerName
  | updateTimer | app (n : Nat)
  deriving DecidableEq, Repr

/-- `struct etimer`; `PROCESS_NONE` is `none`. The link to the next timer is a matter of
the list. -/
structure Etimer where
  start : UInt16
  interval : UInt16
  p : Option Process

/-- An event in the queue: the expiry of a timer (`PROCESS_EVENT_TIMER`), or any other
event. A receiver `none` is `PROCESS_BROADCAST`. -/
inductive Event
  | timer (t : TimerName) (receiver : Option Process)
  | other (receiver : Option Process)
  deriving DecidableEq

/-- `PROCESS_CONF_NUMEVENTS`. -/
def processConfNumevents : Nat := 32

/-- The clock, the timers with `timerlist`, the queue, and `needspoll` of the timers'
process. -/
structure Kernel where
  count : UInt16
  timers : TimerName → Etimer
  timerlist : List TimerName
  needspoll : Bool
  events : List Event

namespace Kernel

variable (k : Kernel)

/-- `process_post`, `none` when the queue is full. -/
def processPost (e : Event) : Option Kernel :=
  if k.events.length = processConfNumevents then none
  else some { k with events := k.events ++ [e] }

/-- `etimer_request_poll`. -/
def etimerRequestPoll : Kernel := { k with needspoll := true }

def setTimer (t : TimerName) (timer : Etimer) : Kernel :=
  { k with timers := Function.update k.timers t timer }

/-- `timer->p = current; timer->next = timerlist; timerlist = timer;` -/
def linkTimer (current : Process) (t : TimerName) : Kernel :=
  { k.setTimer t { k.timers t with p := some current } with timerlist := t :: k.timerlist }

@[simp] theorem timers_etimerRequestPoll : k.etimerRequestPoll.timers = k.timers := rfl
@[simp] theorem timerlist_etimerRequestPoll : k.etimerRequestPoll.timerlist = k.timerlist := rfl
@[simp] theorem timers_setTimer (t : TimerName) (timer : Etimer) :
    (k.setTimer t timer).timers = Function.update k.timers t timer := rfl
@[simp] theorem timerlist_setTimer (t : TimerName) (timer : Etimer) :
    (k.setTimer t timer).timerlist = k.timerlist := rfl
@[simp] theorem timers_linkTimer (current : Process) (t : TimerName) :
    (k.linkTimer current t).timers
      = Function.update k.timers t { k.timers t with p := some current } := rfl
@[simp] theorem timerlist_linkTimer (current : Process) (t : TimerName) :
    (k.linkTimer current t).timerlist = t :: k.timerlist := rfl

/-- `timer_expired`. -/
def timerExpired (t : TimerName) : Bool :=
  decide ((k.timers t).interval < k.count - (k.timers t).start + 1)

/-- `etimer_expired`. -/
def etimerExpired (t : TimerName) : Bool := (k.timers t).p = none

/-! ## The functions that are called from processes -/

/-- `add_timer`, called from the process `current`. -/
def addTimer (current : Process) (t : TimerName) : Kernel :=
  if (k.timers t).p ≠ none ∧ t ∈ k.timerlist then k.etimerRequestPoll
  else k.etimerRequestPoll.linkTimer current t

/-- `etimer_set`. -/
def etimerSet (current : Process) (t : TimerName) (interval : UInt16) : Kernel :=
  (k.setTimer t { k.timers t with interval := interval, start := k.count }).addTimer current t

/-- `etimer_reset`. -/
def etimerReset (current : Process) (t : TimerName) : Kernel :=
  (k.setTimer t { k.timers t with start := (k.timers t).start + (k.timers t).interval }).addTimer
    current t

/-- `etimer_restart`. -/
def etimerRestart (current : Process) (t : TimerName) : Kernel :=
  (k.setTimer t { k.timers t with start := k.count }).addTimer current t

/-- `etimer_adjust`. -/
def etimerAdjust (t : TimerName) (timediff : UInt16) : Kernel :=
  k.setTimer t { k.timers t with start := (k.timers t).start + timediff }

/-- `etimer_stop`. -/
def etimerStop (t : TimerName) : Kernel :=
  { k.setTimer t { k.timers t with p := none } with timerlist := k.timerlist.erase t }

/-! ## The timers' process -/

/-- The loop behind `again:` over the timers. `true` is `goto again`: a timer has been
posted and taken off the list. -/
def pass : List TimerName → Kernel → Bool × Kernel
  | [], k => (false, k)
  | t :: rest, k =>
    if k.timerExpired t then
      match k.processPost (.timer t (k.timers t).p) with
      | some posted => (true, posted.etimerStop t)
      | none => pass rest k.etimerRequestPoll
    else pass rest k

/-- The loop from `again:`, for at most `n` posts. -/
def postExpired : Nat → Kernel → Kernel
  | 0, k => k
  | n + 1, k =>
    match pass k.timerlist k with
    | (true, k) => postExpired n k
    | (false, k) => k

/-- `etimer_process` on `PROCESS_EVENT_POLL`; every post makes the list shorter. -/
def etimerPoll : Kernel := postExpired (k.timerlist.length + 1) k

/-- `etimer_process` on `PROCESS_EVENT_EXITED`. -/
def etimerExited (p : Process) : Kernel :=
  { k with timerlist := k.timerlist.filter fun t => (k.timers t).p ≠ some p }

/-- `do_poll`, as far as the timers' process is concerned. -/
def doPoll : Kernel := if k.needspoll then { k with needspoll := false }.etimerPoll else k

/-- The clock interrupt. -/
def clockInterrupt : Kernel :=
  let k := { k with count := k.count + 1 }
  if k.timerlist ≠ [] then k.etimerRequestPoll else k

/-! ## What the clock and a new timer leave alone -/

@[simp] theorem events_addTimer (current : Process) (t : TimerName) :
    (k.addTimer current t).events = k.events := by
  unfold addTimer
  split <;> rfl

@[simp] theorem needspoll_addTimer (current : Process) (t : TimerName) :
    (k.addTimer current t).needspoll = true := by
  unfold addTimer
  split <;> rfl

@[simp] theorem count_clockInterrupt : k.clockInterrupt.count = k.count + 1 := by
  simp only [clockInterrupt]
  split <;> rfl

@[simp] theorem timers_clockInterrupt : k.clockInterrupt.timers = k.timers := by
  simp only [clockInterrupt]
  split <;> rfl

@[simp] theorem timerlist_clockInterrupt : k.clockInterrupt.timerlist = k.timerlist := by
  simp only [clockInterrupt]
  split <;> rfl

@[simp] theorem events_clockInterrupt : k.clockInterrupt.events = k.events := by
  simp only [clockInterrupt]
  split <;> rfl

theorem needspoll_clockInterrupt (h : k.timerlist ≠ []) :
    k.clockInterrupt.needspoll = true := by
  simp only [clockInterrupt]
  rw [if_pos h]
  rfl

end Kernel

end Hexabus.Firmware.Timing
