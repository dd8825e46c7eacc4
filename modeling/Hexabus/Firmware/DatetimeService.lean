import Hexabus.Firmware.Etimer
import Hexabus.Lib.Runs

/-!
# The datetime service

`datetime_service.c` on the event timers. The service counts seconds by a timer of its
own; the network process calls `updateDatetime`, which restarts that timer.
-/

namespace Hexabus.Firmware.Timing

/-- `CLOCK_SECOND * UPDATE_INTERVALL`, with a clock of 125 ticks a second. -/
def updateIntervall : UInt16 := 125 * 1

/-- `VALID_TIME`. -/
def validTime : Nat := 300

/-- The kernel and the static variables of the service, with the number of seconds counted
at all and since the last update, recorded for the theorems. -/
structure Clock where
  kernel : Kernel
  currentDt : HxbDatetime
  timeValid : Bool
  timestamp : UInt32
  validCounter : Nat
  seconds : Nat
  sinceUpdate : Nat

/-! ## The time of day -/

/-- The condition under which a month ends. -/
def monthEnds (month day : UInt8) : Bool :=
  (month ∈ [1, 3, 5, 7, 8, 10, 12] ∧ day > 31) ∨ (month ∈ [4, 6, 9, 11] ∧ day > 30) ∨
    (month = 2 ∧ day > 28)

def advanceDay (dt : HxbDatetime) : HxbDatetime :=
  let weekday := if dt.weekday + 1 > 6 then 0 else dt.weekday + 1
  let dt := { dt with day := dt.day + 1, weekday := weekday }
  if monthEnds dt.month dt.day then
    let dt := { dt with day := 0, month := dt.month + 1 }
    if dt.month > 12 then { dt with month := 0, year := dt.year + 1 } else dt
  else dt

def advanceHour (dt : HxbDatetime) : HxbDatetime :=
  let dt := { dt with hour := dt.hour + 1 }
  if dt.hour > 23 then advanceDay { dt with hour := 0 } else dt

def advanceMinute (dt : HxbDatetime) : HxbDatetime :=
  let dt := { dt with minute := dt.minute + 1 }
  if dt.minute > 59 then advanceHour { dt with minute := 0 } else dt

/-- `current_dt.second+=1` and its carries. -/
def advanceSecond (dt : HxbDatetime) : HxbDatetime :=
  let dt := { dt with second := dt.second + 1 }
  if dt.second > 59 then advanceMinute { dt with second := 0 } else dt

namespace Clock

variable (s : Clock)

/-! ## The service -/

/-- The thread up to its first wait. -/
def start : Clock :=
  { s with
    timestamp := 0
    timeValid := false
    validCounter := validTime
    kernel := s.kernel.etimerSet .datetime .updateTimer updateIntervall }

/-- `if(etimer_expired(&update_timer)) etimer_reset(&update_timer);` -/
def resetExpired : Clock :=
  if s.kernel.etimerExpired .updateTimer then
    { s with kernel := s.kernel.etimerReset .datetime .updateTimer }
  else s

/-- The counters behind it. -/
def countSecond : Clock :=
  { s with
    timestamp := s.timestamp + 1
    validCounter := if s.validCounter < validTime then s.validCounter + 1 else s.validCounter
    timeValid := if s.validCounter < validTime then s.timeValid else false
    currentDt := advanceSecond s.currentDt
    seconds := s.seconds + 1
    sinceUpdate := s.sinceUpdate + 1 }

/-- The thread on `PROCESS_EVENT_TIMER`. -/
def threadTimer : Clock := s.resetExpired.countSecond

/-- `updateDatetime`, called from the network process. -/
def updateDatetime (dt : HxbDatetime) : Clock :=
  { s with
    currentDt := dt
    timeValid := true
    validCounter := 0
    sinceUpdate := 0
    kernel := s.kernel.etimerRestart .udpHandler .updateTimer }

/-! ## The steps -/

/-- `do_event`: the first event of the queue. A broadcast reaches the service, too. -/
def doEvent : Clock :=
  match s.kernel.events with
  | [] => s
  | .other _ :: rest => { s with kernel := { s.kernel with events := rest } }
  | .timer _ receiver :: rest =>
    let s := { s with kernel := { s.kernel with events := rest } }
    if receiver = some .datetime ∨ receiver = none then s.threadTimer else s

end Clock

/-- The processes that work beside the datetime service. -/
inductive Neighbour
  | udpHandler | app (n : Nat)

def Neighbour.process : Neighbour → Process
  | udpHandler => .udpHandler
  | app n => .app n

/-- What such a process does with its own timers and with the queue. -/
inductive Action
  | set (n : Nat) (interval : UInt16)
  | reset (n : Nat)
  | restart (n : Nat)
  | adjust (n : Nat) (timediff : UInt16)
  | stop (n : Nat)
  /-- `process_post` of an event that is not `PROCESS_EVENT_TIMER`. -/
  | post (receiver : Option Process)
  /-- The process exits. -/
  | exit

def Action.perform (current : Process) (k : Kernel) : Action → Kernel
  | set n interval => k.etimerSet current (.app n) interval
  | reset n => k.etimerReset current (.app n)
  | restart n => k.etimerRestart current (.app n)
  | adjust n timediff => k.etimerAdjust (.app n) timediff
  | stop n => k.etimerStop (.app n)
  | post receiver => (k.processPost (.other receiver)).getD k
  | exit => k.etimerExited current

/-- One step of the firmware: the clock ticks, the timers' process is polled, an event is
taken from the queue, a date and time arrive from the network, or another process does
something. -/
inductive ClockStep
  | tick
  | poll
  | event
  | update (dt : HxbDatetime)
  | act (q : Neighbour) (action : Action)

def clockStep : ClockStep → Clock → Clock
  | .tick, s => { s with kernel := s.kernel.clockInterrupt }
  | .poll, s => { s with kernel := s.kernel.doPoll }
  | .event, s => s.doEvent
  | .update dt, s => s.updateDatetime dt
  | .act q action, s => { s with kernel := action.perform q.process s.kernel }

end Hexabus.Firmware.Timing
