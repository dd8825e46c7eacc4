import Hexabus.Lib.Heap
import Hexabus.Lib.Runs

/-!
# The device interrogator

`device_interrogator.cpp`: the heap of running queries, the timer that serves it, and the
callbacks of the queries. A callback is the user's code: while it runs it may queue further
queries, so a run of the interrogator stops at every callback and goes on when the callback
returns. The queries are numbered in the order of the calls of `queue_query`, and a query's
number stands for its two callbacks.
-/

namespace Hexabus.Host

open Lib.Heap

variable {P D E : Type}

/-- The arguments of `queue_query` but for the callbacks: a packet for a device, the filter
of its responses on packets and their senders, and the number of tries. -/
structure Request (P D E : Type) where
  device : D
  packet : P
  filter : P → E → Bool
  maxTries : Int

/-- `base_query`, with the number of the query for its callbacks. -/
structure BaseQuery (P D E : Type) where
  number : Nat
  retries : Int
  maxRetries : Int
  device : D
  /-- In microseconds. -/
  deadline : Int
  packet : P
  filter : P → E → Bool

namespace BaseQuery

/-- `operator<`: the query that is due first is the greatest. -/
def lt (q other : BaseQuery P D E) : Bool := other.deadline < q.deadline

end BaseQuery

/-- `posix_time::seconds`, in microseconds. -/
def seconds (n : Int) : Int := n * 1000000

/-- The `deadline_timer`: the time it is set to, the waits for it, and the handlers of
earlier waits that the I/O service still has to run, each with whether it gets an error. -/
structure DeadlineTimer where
  expiry : Int
  waits : Nat
  posted : List Bool

namespace DeadlineTimer

/-- `expires_at`: the waits under way are cancelled, their handlers get an error. -/
def expiresAt (timer : DeadlineTimer) (t : Int) : DeadlineTimer where
  expiry := t
  waits := 0
  posted := timer.posted ++ List.replicate timer.waits true

/-- `async_wait`. -/
def asyncWait (timer : DeadlineTimer) : DeadlineTimer := { timer with waits := timer.waits + 1 }

/-- The time has come: the handlers of the waits are to run, without an error. -/
def expire (timer : DeadlineTimer) : DeadlineTimer :=
  { timer with waits := 0, posted := timer.posted ++ List.replicate timer.waits false }

/-- A handler will run that gets no error. -/
def Running (timer : DeadlineTimer) : Prop := 0 < timer.waits ∨ false ∈ timer.posted

end DeadlineTimer

theorem DeadlineTimer.Running.expire {timer : DeadlineTimer} (h : timer.Running) :
    timer.expire.Running := by
  refine .inr (List.mem_append.mpr ?_)
  rcases h with hwaits | hmem
  · exact .inr (List.mem_replicate.mpr ⟨by omega, rfl⟩)
  · exact .inl hmem

/-- What happens to the queries, in order. -/
inductive Event (P E : Type) where
  | queued (n : Nat)
  | sent (n : Nat)
  /-- `socket.send` throws. -/
  | refused (n : Nat)
  | received (packet : P) (sender : E)
  /-- The response callback is called with a packet. -/
  | response (n : Nat) (packet : P) (sender : E)
  /-- The failure callback is called. -/
  | failure (n : Nat)

/-- The handler that waits for a callback to return. -/
inductive Handler (P E : Type) where
  /-- `packet_received` in `q.response(packet)`: the packet, and the iterator `it` as a
  position in one storage of the vector. -/
  | packetReceived (packet : P) (sender : E) (storage it : Nat)
  /-- `timeout` in `back.failure(..)`. -/
  | timeout

/-- A `DeviceInterrogator` with the control of the thread it runs in: the handler under way,
if any, and above it the failure callbacks that calls of `queue_query` wait for. -/
structure DeviceInterrogator (P D E : Type) where
  runningQueries : List (BaseQuery P D E)
  capacity : Nat
  /-- How often the vector has moved to a new storage. -/
  storage : Nat
  timer : DeadlineTimer
  handler : Option (Handler P E)
  rejections : Nat
  requests : List (Request P D E)
  trace : List (Event P E)
  /-- The code has used an iterator that is no longer valid. -/
  undefinedBehaviour : Bool

namespace DeviceInterrogator

/-- No callback is running. -/
def Idle (w : DeviceInterrogator P D E) : Prop := w.handler = none ∧ w.rejections = 0

instance (w : DeviceInterrogator P D E) : Decidable w.Idle :=
  decidable_of_iff (w.handler.isNone = true ∧ w.rejections = 0) (by simp [Idle])

def init : DeviceInterrogator P D E where
  runningQueries := []
  capacity := 0
  storage := 0
  timer := ⟨0, 0, []⟩
  handler := none
  rejections := 0
  requests := []
  trace := []
  undefinedBehaviour := false

def record (w : DeviceInterrogator P D E) (events : List (Event P E)) : DeviceInterrogator P D E :=
  { w with trace := w.trace ++ events }

/-! ## The vector -/

/-- `push_back`: a full vector moves to a new storage, larger by one and `spare` places. -/
def pushBack (w : DeviceInterrogator P D E) (q : BaseQuery P D E) (spare : Nat) :
    DeviceInterrogator P D E :=
  if w.runningQueries.length < w.capacity then
    { w with runningQueries := w.runningQueries ++ [q] }
  else
    { w with
      runningQueries := w.runningQueries ++ [q]
      capacity := w.runningQueries.length + 1 + spare
      storage := w.storage + 1 }

/-! ## `reschedule_timer` and `queue_query` -/

def rescheduleTimer (w : DeviceInterrogator P D E) : DeviceInterrogator P D E :=
  match w.runningQueries with
  | [] => w
  | q :: _ => { w with timer := (w.timer.expiresAt q.deadline).asyncWait }

/-- The query of a request that is made at the time `now`. -/
def newQuery (w : DeviceInterrogator P D E) (req : Request P D E) (now : Int) :
    BaseQuery P D E where
  number := w.requests.length
  retries := 0
  maxRetries := req.maxTries - 1
  device := req.device
  deadline := now + seconds 1
  packet := req.packet
  filter := req.filter

/-- `queue_query` at the time `now`; `socket.send` throws unless `sendOk`. -/
def queueQuery (w : DeviceInterrogator P D E) (req : Request P D E) (now : Int) (sendOk : Bool)
    (spare : Nat) : DeviceInterrogator P D E :=
  let query := w.newQuery req now
  let w := { w with requests := w.requests ++ [req] }
  if sendOk then
    let w := (w.record [.queued query.number, .sent query.number]).pushBack query spare
    let w := { w with runningQueries := pushHeap BaseQuery.lt w.runningQueries }
    if w.runningQueries.length = 1 then w.rescheduleTimer else w
  else
    { w.record [.queued query.number, .refused query.number, .failure query.number] with
      rejections := w.rejections + 1 }

/-! ## `packet_received` -/

/-- The loop from the position `it` on: past the queries whose filter fails, into the
response callback of the next one; behind the last query the scope is left. -/
def scan (w : DeviceInterrogator P D E) (packet : P) (sender : E) (it : Nat)
    (orderDestroyed : Bool) : DeviceInterrogator P D E :=
  match (w.runningQueries.drop it).findIdx? (fun q => q.filter packet sender) with
  | some k =>
    match w.runningQueries[it + k]? with
    | some q =>
      { w.record [.response q.number packet sender] with
        handler := some (.packetReceived packet sender w.storage (it + k)) }
    | none => w
  | none =>
    if orderDestroyed then
      { w with handler := none,
               runningQueries := makeHeap BaseQuery.lt w.runningQueries }.rescheduleTimer
    else { w with handler := none }.rescheduleTimer

def packetReceived (w : DeviceInterrogator P D E) (packet : P) (sender : E) :
    DeviceInterrogator P D E :=
  (w.record [.received packet sender]).scan packet sender 0 false

/-! ## `timeout` -/

/-- `back` with the try counted, as the failure callback finds it. -/
def failBack (w : DeviceInterrogator P D E) (rest : List (BaseQuery P D E))
    (back : BaseQuery P D E) (events : List (Event P E)) : DeviceInterrogator P D E :=
  { w.record events with
    runningQueries := rest ++ [{ back with retries := back.retries + 1 }]
    handler := some .timeout }

/-- `timeout`, where `socket.send` throws unless `sendOk`. -/
def timeout (w : DeviceInterrogator P D E) (err sendOk : Bool) : DeviceInterrogator P D E :=
  if err then w else
  let queries := popHeap BaseQuery.lt w.runningQueries
  match queries.getLast? with
  | none => w
  | some back =>
    if back.retries = back.maxRetries then
      w.failBack queries.dropLast back [.failure back.number]
    else if sendOk then
      { w.record [.sent back.number] with
        runningQueries := pushHeap BaseQuery.lt (queries.dropLast ++
          [{ back with retries := back.retries + 1,
                       deadline := back.deadline + seconds 1 }]) }.rescheduleTimer
    else w.failBack queries.dropLast back [.refused back.number, .failure back.number]

/-! ## Callbacks that return -/

/-- The callback on top returns: to `queue_query`, which is done then, to the scope exit of
`packet_received`, which erases at `it` and goes on with the loop, or to that of `timeout`,
which pops the last query. -/
def callbackReturns (w : DeviceInterrogator P D E) : DeviceInterrogator P D E :=
  if 0 < w.rejections then { w with rejections := w.rejections - 1 } else
  match w.handler with
  | none => w
  | some (.packetReceived packet sender storage it) =>
    if storage = w.storage then
      { w with runningQueries := w.runningQueries.eraseIdx it }.scan packet sender it true
    else { w with undefinedBehaviour := true }
  | some .timeout =>
    { w with runningQueries := w.runningQueries.dropLast, handler := none }.rescheduleTimer

/-! ## Runs -/

/-- What the user, the network and the I/O service do. -/
inductive Step (P D E : Type) where
  /-- The user's code calls `queue_query`, from a callback or from outside. -/
  | queue (req : Request P D E) (now : Int) (sendOk : Bool) (spare : Nat)
  /-- The I/O service hands a packet to `packet_received`. -/
  | receive (packet : P) (sender : E)
  /-- The timer expires. -/
  | expire
  /-- The I/O service runs the next handler of the timer. -/
  | dispatch (sendOk : Bool)
  /-- The user's code returns from a callback. -/
  | callbackReturns

/-- The I/O service runs one handler at a time. -/
def step (a : Step P D E) (w : DeviceInterrogator P D E) : DeviceInterrogator P D E :=
  if w.undefinedBehaviour then w else
  match a with
  | .queue req now sendOk spare => w.queueQuery req now sendOk spare
  | .receive packet sender => if w.Idle then w.packetReceived packet sender else w
  | .expire => if w.Idle then { w with timer := w.timer.expire } else w
  | .dispatch sendOk =>
    match w.timer.posted with
    | [] => w
    | err :: posted =>
      if w.Idle then { w with timer := { w.timer with posted := posted } }.timeout err sendOk
      else w
  | .callbackReturns => w.callbackReturns

end DeviceInterrogator

end Hexabus.Host
