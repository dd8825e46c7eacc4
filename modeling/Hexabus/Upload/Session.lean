import Hexabus.Firmware.Process
import Hexabus.Lib.Runs
import Hexabus.Upload.Layout

/-!
# An upload session

The main function of `hexaupload.cpp` with its two senders, the endpoints of `sm_upload.c`,
and the network between them. A packet that has been sent stays in flight: it may reach the
other side never, late, out of order and more than once. Both senders listen on one socket
and stop one `io_service`, so the reply to one ends the wait of the other. A timer that has
expired when it is cancelled does not fire.
-/

namespace Hexabus.Upload

open Lib.Bytes Firmware

/-! ## The device -/

/-- A packet for the device. -/
inductive Request
  /-- A write to `EP_SM_CONTROL`. -/
  | control (state : UInt8)
  /-- A query of `EP_SM_CONTROL`. -/
  | query
  /-- A write to `EP_SM_UP_RECEIVER`. -/
  | chunk (id : UInt8) (data : Block 64)

/-- A packet for the uploader that one of its filters lets through. -/
inductive Reply
  /-- The value of `EP_SM_CONTROL`. -/
  | state (value : UInt8)
  /-- The value of `EP_SM_UP_ACKNAK`. -/
  | acknak (value : Bool)

/-- `STM_STATE_STOPPED` and `STM_STATE_RUNNING`. -/
def stmStateStopped : UInt8 := 0
def stmStateRunning : UInt8 := 1

variable {δ : Type}

/-- `read_control`. -/
def readControl (s : Fw δ) : UInt8 :=
  if smIsRunning s then stmStateRunning else stmStateStopped

/-- `write_control`. -/
def writeControl (state : UInt8) (s : Fw δ) : Fw δ :=
  if state = stmStateStopped then smStop s
  else if state = stmStateRunning then if smIsRunning s then smRestart s else smStart s
  else s

/-- `write_receiver`. -/
def writeReceiver (id : UInt8) (data : Block 64) (s : Fw δ) : Bool × Fw δ :=
  let (result, eeprom) := smWriteChunk s.eeprom id data
  (result, { s with eeprom := eeprom })

/-- What the device does with a request, and what it replies. -/
def serve (request : Request) (s : Fw δ) : Fw δ × Option Reply :=
  match request with
  | .control state => (writeControl state s, none)
  | .query => (s, some (.state (readControl s)))
  | .chunk id data =>
    let (result, s) := writeReceiver id data s
    (s, some (.acknak result))

/-- The device boots: only its EEPROM stays, and the main program starts the machine. -/
def reboot (zeroed : Fw δ) (s : Fw δ) : Fw δ :=
  smStart { zeroed with eeprom := s.eeprom, pstate := .none }

/-! ## The uploader -/

/-- The `ErrorCode`s of a sender; `other` stands for what an unset variable may hold. -/
inductive SendError
  | none
  | network
  | maxretryExceeded
  | other
  deriving DecidableEq

/-- The call of `send` that is waiting. -/
inductive Job
  | stop
  | chunk (id : UInt8)
  | start
  deriving DecidableEq

/-- The two senders. -/
inductive Sender
  | sm
  | chunks
  deriving DecidableEq

def Job.sender : Job → Sender
  | .stop | .start => .sm
  | .chunk _ => .chunks

/-- `reqState`. -/
def Job.reqState : Job → UInt8
  | .stop | .chunk _ => stmStateStopped
  | .start => stmStateRunning

/-- The uploader: where its main function stands, and the members of the senders.
`confirmed` counts the calls of `sendChunk` that have returned `ERR_NONE`; `wild` says that
a sender has sent a packet that is gone. -/
structure Uploader where
  job : Option Job
  failCount : Sender → Nat
  result : Sender → SendError
  confirmed : Nat
  exitCode : SendError
  wild : Bool

/-- The two sides and the packets in flight, each reply with what it answers. `rebooted` says
that the device has booted after it had told that its machine is stopped. -/
structure Session (δ : Type) where
  device : Fw δ
  uploader : Uploader
  requests : List Request
  replies : List (Request × Reply)
  rebooted : Bool

/-- The machine is stopped, says the reply. -/
def Reply.isStopped : Reply → Bool
  | .state value => value = stmStateStopped
  | .acknak _ => false

/-- What a session is about: the chunks, and the option `--retry`. -/
structure Program where
  image : List (Block 64)
  retryLimit : Int

namespace Session

variable (program : Program)

/-- `sendPacket`. -/
def packets : Job → List Request
  | .stop => [.control stmStateStopped, .query]
  | .chunk id => (program.image[id.toNat]?).toList.map (.chunk id)
  | .start => [.control stmStateRunning, .query]

/-- `send`, up to its wait. -/
def begin (job : Job) (s : Session δ) : Session δ :=
  { s with
    uploader := { s.uploader with
      job := some job
      failCount := Function.update s.uploader.failCount job.sender 0 }
    requests := s.requests ++ packets program job }

/-- The head of the loop over the chunks. -/
def nextChunk (id : UInt8) (s : Session δ) : Session δ :=
  if id.toNat < program.image.length then begin program (.chunk id) s
  else begin program .start s

/-- `main` returns. -/
def exit (err : SendError) (s : Session δ) : Session δ :=
  { s with uploader := { s.uploader with job := none, exitCode := err } }

/-- The wait is over, and `send` returns the result of its own sender. -/
def returned (job : Job) (s : Session δ) : Session δ :=
  let err := s.uploader.result job.sender
  if err ≠ .none then exit err s
  else match job with
    | .stop => nextChunk program 0 s
    | .chunk id => nextChunk program (id + 1)
        { s with uploader := { s.uploader with confirmed := s.uploader.confirmed + 1 } }
    | .start => exit .none s

/-- `this->result = result`. -/
def setResult (sender : Sender) (err : SendError) (s : Session δ) : Session δ :=
  { s with uploader := { s.uploader with
      result := Function.update s.uploader.result sender err } }

/-- `failCount++`. -/
def countFailure (sender : Sender) (s : Session δ) : Session δ :=
  { s with uploader := { s.uploader with
      failCount := Function.update s.uploader.failCount sender
        (s.uploader.failCount sender + 1) } }

/-- `finish`, called on one sender while `job` waits. -/
def finish (sender : Sender) (err : SendError) (job : Job) (s : Session δ) : Session δ :=
  returned program job (setResult sender err s)

/-- `failOne`, called on one sender while `job` waits. -/
def failOne (sender : Sender) (job : Job) (s : Session δ) : Session δ :=
  let s := countFailure sender s
  if (s.uploader.failCount sender : Int) > program.retryLimit ∨ program.retryLimit < 0 then
    finish program sender .maxretryExceeded job s
  else if job.sender = sender then { s with requests := s.requests ++ packets program job }
  else { s with uploader := { s.uploader with wild := true } }

/-- `onReply` of the two senders. -/
def onReply (reply : Reply) (job : Job) (s : Session δ) : Session δ :=
  match reply with
  | .state value => if value = job.reqState then finish program .sm .none job s else s
  | .acknak true => finish program .chunks .none job s
  | .acknak false => failOne program .chunks job s

/-- `onError`: both senders listen. -/
def onError (job : Job) (s : Session δ) : Session δ :=
  returned program job (setResult .chunks .network (setResult .sm .network s))

/-! ## Steps -/

/-- What can happen. -/
inductive Step
  /-- The device receives a packet. -/
  | request (i : Nat)
  /-- The uploader receives a packet. -/
  | reply (i : Nat)
  | timeout
  | error
  | reboot
  /-- A Reset-ID restarts the machine if it runs. -/
  | reset

variable (zeroed : Fw δ)

/-- The uploader does something, unless it has returned. -/
def whileWaiting (f : Job → Session δ → Session δ) (s : Session δ) : Session δ :=
  match s.uploader.job with
  | none => s
  | some job => f job s

def step : Step → Session δ → Session δ
  | .request i, s =>
    match s.requests[i]? with
    | none => s
    | some request =>
      let (device, reply) := serve request s.device
      { s with
        device := device
        replies := s.replies ++ reply.toList.map fun reply => (request, reply) }
  | .reply i, s =>
    match s.replies[i]? with
    | none => s
    | some (_, reply) => whileWaiting (onReply program reply) s
  | .timeout, s => whileWaiting (fun job => failOne program job.sender job) s
  | .error, s => whileWaiting (onError program) s
  | .reboot, s => { s with
      device := Upload.reboot zeroed s.device
      rebooted := s.rebooted || s.replies.any fun answer => answer.2.isStopped }
  | .reset, s => { s with device := if smIsRunning s.device then smRestart s.device else s.device }

/-- The session begins: `sm.stop()`. -/
def init (device : Fw δ) (result : Sender → SendError) (failCount : Sender → Nat) : Session δ :=
  begin program .stop
    { device := device
      uploader :=
        { job := none
          failCount := failCount
          result := result
          confirmed := 0
          exitCode := .none
          wild := false }
      requests := []
      replies := []
      rebooted := false }

end Session

end Hexabus.Upload
